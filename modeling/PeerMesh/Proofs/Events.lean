import PeerMesh.Interpreter.Outbound
import PeerMesh.Proofs.Fields

namespace PeerMesh

def Event.reduction? (job : JobId) : Event → Option (Fields Val × Command)
  | .broadcastCustomResult value c => if c.job? = some job then some (value, c) else none
  | _ => none

variable {ν : Type}

theorem Site.reducing_eq (job : JobId) (reducer : Reducer ν) (e : Event) :
    reducing job reducer e =
      match e.reduction? job with
      | some (value, c) => reducer value c
      | none => .done := by
  cases e with
  | broadcastResult | unicastResult => rfl
  | broadcastCustomResult value c =>
    rw [reducing, Event.reduction?]
    split
    · rfl
    · rfl

theorem Site.reducing_of_ne {job job' : JobId} (h : job' ≠ job) (reducer : Reducer ν) {e : Event}
    {r : Fields Val × Command} (he : e.reduction? job = some r) :
    reducing job' reducer e = .done := by
  cases e with
  | broadcastResult | unicastResult => cases he
  | broadcastCustomResult value c =>
    rw [Event.reduction?] at he
    split at he
    · next hc =>
      rw [reducing, if_neg]
      rw [hc]
      exact fun heq => h (Option.some.inj heq).symm
    · cases he

/-- The reaction never makes up a response to `job`, nor do the listeners that it adds. -/
def Reaction.Spares (job : JobId) : Reaction ν → Prop
  | done => True
  | panic => True
  | note _ next => next.Spares job
  | post _ _ next => next.Spares job
  | cancel _ next => next.Spares job
  | listen _ _ listener next => (∀ e, (listener e).Spares job) ∧ next.Spares job
  | emit event next => event.reduction? job = none ∧ next.Spares job

def Moment.reduction? (s : Subscription) (job : JobId) : Moment ν → Option (Fields Val × Command)
  | called id e => if id = s.id then e.reduction? job else none
  | noted _ => none

/-- The responses to `job` that the listener of a subscription was called with. -/
def reductions (s : Subscription) (job : JobId) (log : List (Moment ν)) :
    List (Fields Val × Command) :=
  log.filterMap (Moment.reduction? s job)

/-- The listener is subscribed, nothing inside the hub can end that, and no other listener makes up
a response to `job`. -/
structure Hub.Watches (h : Hub ν) (s : Subscription) (job : JobId) (listener : Listener ν) :
    Prop where
  listening : h.listeners.filter (fun l => l.id = s.id) =
    [⟨s.id, .broadcastCustomResult, listener⟩]
  next : s.id < h.next
  held : ∀ name t, h.held.get? name = some t → t.id ≠ s.id
  spares : ∀ l ∈ h.listeners, ∀ e, (l.listener e).Spares job

namespace Hub.Watches

variable {h : Hub ν} {s : Subscription} {job : JobId} {listener : Listener ν}

theorem on (hw : h.Watches s job listener) (kind : EventKind) {added : Listener ν}
    (ha : ∀ e, (added e).Spares job) : (h.on kind added).2.Watches s job listener where
  listening := by
    have hne : h.next ≠ s.id := Nat.ne_of_gt hw.next
    rw [Hub.on]
    dsimp only
    rw [List.filter_append, hw.listening, List.filter_cons_of_neg (by simpa using hne)]
    rfl
  next := Nat.lt_succ_of_lt hw.next
  held := hw.held
  spares l hl := by
    obtain hl | hl := List.mem_append.mp hl
    · exact hw.spares l hl
    · cases List.mem_singleton.mp hl
      exact ha

theorem cancel (hw : h.Watches s job listener) {t : Subscription} (ht : t.id ≠ s.id) :
    (h.cancel t).Watches s job listener where
  listening := by
    rw [Hub.cancel]
    dsimp only
    rw [List.filter_filter]
    refine Eq.trans (List.filter_congr fun l _ => ?_) hw.listening
    by_cases hl : l.id = s.id
    · simp [hl, Ne.symm ht]
    · simp [hl]
  next := hw.next
  held := hw.held
  spares l hl := hw.spares l (List.mem_filter.mp hl).1

theorem post (hw : h.Watches s job listener) (mailbox : Nat) (e : Event) :
    (h.post mailbox e).Watches s job listener :=
  ⟨hw.listening, hw.next, hw.held, hw.spares⟩

theorem release (hw : h.Watches s job listener) (name : String) :
    (h.release name).Watches s job listener := by
  rw [Hub.release]
  split
  · exact hw
  · next t ht =>
    have hc := hw.cancel (hw.held name t ht)
    refine ⟨hc.listening, hc.next, fun other u hu => ?_, hc.spares⟩
    rw [Dict.get?_erase] at hu
    split at hu
    · cases hu
    · exact hw.held other u hu

theorem detach (hw : h.Watches s job listener) (name : String) :
    (h.detach name).Watches s job listener where
  listening := hw.listening
  next := hw.next
  held other u hu := by
    rw [Hub.detach, Dict.get?_erase] at hu
    split at hu
    · cases hu
    · exact hw.held other u hu
  spares := hw.spares

theorem hold (hw : h.Watches s job listener) (name : String) {t : Subscription}
    (ht : t.id ≠ s.id) : (h.hold name t).Watches s job listener := by
  have hr := hw.release name
  refine ⟨hr.listening, hr.next, fun other u hu => ?_, hr.spares⟩
  rw [Hub.hold, Dict.get?_insert] at hu
  split at hu
  · cases hu
    exact ht
  · exact hw.held other u hu

theorem listen (hw : h.Watches s job listener) (name : String) (kind : EventKind)
    {added : Listener ν} (ha : ∀ e, (added e).Spares job) :
    (h.listen name kind added).Watches s job listener :=
  (hw.on kind ha).hold name (Nat.ne_of_gt hw.next)

end Hub.Watches

/-- Subscriptions are numbered in order, and no listener makes up a response to `job`. -/
structure Hub.Ready (h : Hub ν) (job : JobId) : Prop where
  ids : ∀ l ∈ h.listeners, l.id < h.next
  held : ∀ name t, h.held.get? name = some t → t.id < h.next
  spares : ∀ l ∈ h.listeners, ∀ e, (l.listener e).Spares job

namespace Hub.Ready

variable {h : Hub ν} {job : JobId}

theorem empty (job : JobId) (depth : Nat) : (Hub.empty depth : Hub ν).Ready job where
  ids l hl := by cases hl
  held name t ht := by cases ht
  spares l hl := by cases hl

theorem on (hr : h.Ready job) (kind : EventKind) {added : Listener ν}
    (ha : ∀ e, (added e).Spares job) : (h.on kind added).2.Ready job where
  ids l hl := by
    obtain hl | hl := List.mem_append.mp hl
    · exact Nat.lt_succ_of_lt (hr.ids l hl)
    · cases List.mem_singleton.mp hl
      exact Nat.lt_succ_self _
  held name t ht := Nat.lt_succ_of_lt (hr.held name t ht)
  spares l hl := by
    obtain hl | hl := List.mem_append.mp hl
    · exact hr.spares l hl
    · cases List.mem_singleton.mp hl
      exact ha

theorem cancel (hr : h.Ready job) (t : Subscription) : (h.cancel t).Ready job where
  ids l hl := hr.ids l (List.mem_filter.mp hl).1
  held := hr.held
  spares l hl := hr.spares l (List.mem_filter.mp hl).1

theorem post (hr : h.Ready job) (mailbox : Nat) (e : Event) : (h.post mailbox e).Ready job :=
  ⟨hr.ids, hr.held, hr.spares⟩

theorem detach (hr : h.Ready job) (name : String) : (h.detach name).Ready job where
  ids := hr.ids
  held other u hu := by
    rw [Hub.detach, Dict.get?_erase] at hu
    split at hu
    · cases hu
    · exact hr.held other u hu
  spares := hr.spares

theorem release (hr : h.Ready job) (name : String) : (h.release name).Ready job := by
  rw [Hub.release]
  split
  · exact hr
  · next t _ => exact (hr.cancel t).detach name

theorem next_release (h : Hub ν) (name : String) : (h.release name).next = h.next := by
  rw [Hub.release]
  split
  · rfl
  · rfl

theorem listen (hr : h.Ready job) (name : String) (kind : EventKind) {added : Listener ν}
    (ha : ∀ e, (added e).Spares job) : (h.listen name kind added).Ready job := by
  have ho := hr.on kind ha
  have hrel := ho.release name
  refine ⟨hrel.ids, fun other u hu => ?_, hrel.spares⟩
  have hnext : (h.listen name kind added).next = h.next + 1 :=
    next_release (h.on kind added).2 name
  rw [hnext]
  rw [Hub.listen] at hu
  dsimp only at hu
  rw [Hub.hold, Dict.get?_insert] at hu
  split at hu
  · cases hu
    exact Nat.lt_succ_self _
  · exact ho.held other u hu

theorem watches (hr : h.Ready job) {listener : Listener ν}
    (ha : ∀ e, (listener e).Spares job) :
    (h.on .broadcastCustomResult listener).2.Watches ⟨h.next⟩ job listener where
  listening := by
    rw [Hub.on]
    dsimp only
    rw [List.filter_append, List.filter_eq_nil_iff.mpr, List.nil_append,
      List.filter_cons_of_pos (by simp)]
    · rfl
    · intro l hl
      simpa using Nat.ne_of_lt (hr.ids l hl)
  next := Nat.lt_succ_self _
  held name t ht := Nat.ne_of_lt (hr.held name t ht)
  spares := (hr.on _ ha).spares

end Hub.Ready

end PeerMesh
