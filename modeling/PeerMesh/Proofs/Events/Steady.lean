import PeerMesh.Proofs.Events.Reductions

namespace PeerMesh

variable {ν : Type}

namespace Hub

variable {h : Hub ν} {s : Subscription} {job : JobId} {P : Hub ν → Prop}

/-- What is preserved by all that map-reduces and payloads do to a hub, if nothing makes up a
response to `job`. -/
structure Steady (job : JobId) (P : Hub ν → Prop) : Prop extends Invariant job P where
  on : ∀ {h : Hub ν} {added : Listener ν}, (∀ e, (added e).Spares job) → P h →
    P (h.on .broadcastCustomResult added).2
  cancel : ∀ {h : Hub ν} (s : Subscription), P h → P (h.cancel s)

theorem reductions_emit_of_absent (hP : Invariant job P) (hh : P h)
    (hs : ∀ l ∈ h.listeners, l.id ≠ s.id) (e : Event) : reductions s job (h.emit e).2 = [] := by
  have hls : ∀ l ∈ h.listening e.kind, ∀ e, (l.listener e).Spares job :=
    fun l hl => hP.spares hh l (List.mem_filter.mp hl).1
  have hnone : (h.listening e.kind).filter (fun l => l.id = s.id) = [] :=
    List.filter_eq_nil_iff.mpr fun l hl => by simpa using hs l (List.mem_filter.mp hl).1
  obtain ⟨-, hred⟩ := foldl_reductions hP (emitWithin_harmless hP h.depth) e hls hh []
  rw [hnone] at hred
  exact hred

theorem Ready.steady (n : Nat) : Steady job fun h : Hub ν => h.Ready job ∧ n ≤ h.next where
  post mailbox e hh := ⟨hh.1.post mailbox e, hh.2⟩
  release {h} name hh := by
    refine ⟨hh.1.release name, ?_⟩
    rw [Ready.next_release h name]
    exact hh.2
  listen {h} name kind added ha hh := by
    refine ⟨hh.1.listen name kind ha, Nat.le_trans hh.2 ?_⟩
    rw [show (h.listen name kind added).next = h.next + 1 from
      Ready.next_release (h.on kind added).2 name]
    exact Nat.le_succ _
  spares hh := hh.1.spares
  on ha hh := ⟨hh.1.on _ ha, Nat.le_succ_of_le hh.2⟩
  cancel t hh := ⟨hh.1.cancel t, hh.2⟩

structure Ended (h : Hub ν) (s : Subscription) (job : JobId) : Prop where
  ready : h.Ready job
  next : s.id < h.next
  absent : ∀ l ∈ h.listeners, l.id ≠ s.id

namespace Ended

theorem cancel (he : h.Ended s job) (t : Subscription) : (h.cancel t).Ended s job where
  ready := he.ready.cancel t
  next := he.next
  absent l hl := he.absent l (List.mem_filter.mp hl).1

theorem on (he : h.Ended s job) (kind : EventKind) {added : Listener ν}
    (ha : ∀ e, (added e).Spares job) : (h.on kind added).2.Ended s job where
  ready := he.ready.on kind ha
  next := Nat.lt_succ_of_lt he.next
  absent l hl := by
    obtain hl | hl := List.mem_append.mp hl
    · exact he.absent l hl
    · cases List.mem_singleton.mp hl
      exact Nat.ne_of_gt he.next

theorem release (he : h.Ended s job) (name : String) : (h.release name).Ended s job := by
  rw [Hub.release]
  split
  · exact he
  · next t _ =>
    have hc := he.cancel t
    exact ⟨hc.ready.detach name, hc.next, hc.absent⟩

theorem steady : Steady job fun h : Hub ν => h.Ended s job where
  post mailbox e he := ⟨he.ready.post mailbox e, he.next, he.absent⟩
  release name he := he.release name
  listen name kind _ ha he :=
    have hr := (he.on kind ha).release name
    ⟨he.ready.listen name kind ha, hr.next, hr.absent⟩
  spares he := he.ready.spares
  on ha he := he.on _ ha
  cancel t he := he.cancel t

end Ended

/-- A subscription that ends does so for good. -/
theorem Ready.ended (hr : h.Ready job) (hs : s.id < h.next) : (h.cancel s).Ended s job where
  ready := hr.cancel s
  next := hs
  absent _ hl := of_decide_eq_true (List.mem_filter.mp hl).2

end Hub

/-- The reaction neither starts a subscription nor ends one. -/
def Reaction.Quiet : Reaction ν → Prop
  | done => True
  | panic => True
  | note _ next => next.Quiet
  | post _ _ next => next.Quiet
  | emit _ next => next.Quiet
  | cancel .. => False
  | listen .. => False

namespace Hub

def Quiet (h : Hub ν) : Prop :=
  ∀ l ∈ h.listeners, ∀ e, (l.listener e).Quiet

/-- The same subscriptions, with the same number for the next one. -/
def Alike (h h' : Hub ν) : Prop :=
  h'.listeners = h.listeners ∧ h'.next = h.next

theorem Alike.trans {h h' h'' : Hub ν} (one : h.Alike h') (two : h'.Alike h'') : h.Alike h'' :=
  ⟨two.1.trans one.1, two.2.trans one.2⟩

theorem Quiet.of_listeners {h h' : Hub ν} (hq : h.Quiet) (hl : h'.listeners = h.listeners) :
    h'.Quiet := by
  rw [Quiet, hl]
  exact hq

def Calm (emit : Hub ν → Event → Hub ν × List (Moment ν)) : Prop :=
  ∀ (h : Hub ν) e, h.Quiet → h.Alike (emit h e).1

variable {emit : Hub ν → Event → Hub ν × List (Moment ν)}

theorem run_alike (hemit : Calm emit) {r : Reaction ν} (hr : r.Quiet) {h : Hub ν} (hq : h.Quiet) :
    h.Alike (r.run emit h).1 := by
  induction r generalizing h with
  | done | panic => exact ⟨rfl, rfl⟩
  | note what next ih => exact ih hr hq
  | post mailbox e next ih => exact ih (h := h.post mailbox e) hr hq
  | emit e next ih =>
    have hfirst := hemit h e hq
    exact hfirst.trans (ih hr (hq.of_listeners hfirst.1))
  | cancel | listen => exact absurd hr id

theorem foldl_alike (hemit : Calm emit) (e : Event) {ls : List (Registered ν)}
    (hls : ∀ l ∈ ls, ∀ e, (l.listener e).Quiet) {h : Hub ν} (hq : h.Quiet)
    (log : List (Moment ν)) :
    h.Alike (ls.foldl
      (fun (h, log) l =>
        let (h, more) := (l.listener e).run emit h
        (h, log ++ .called l.id e :: more))
      (h, log)).1 := by
  induction ls generalizing h log with
  | nil => exact ⟨rfl, rfl⟩
  | cons l ls ih =>
    have hfirst := run_alike hemit (hls l List.mem_cons_self e) hq
    obtain ⟨-, hothers⟩ := List.forall_mem_cons.mp hls
    exact hfirst.trans (ih hothers (hq.of_listeners hfirst.1) _)

theorem emitWithin_calm (depth : Nat) : Calm (emitWithin (ν := ν) depth) := by
  induction depth with
  | zero => exact fun h e _ => ⟨rfl, rfl⟩
  | succ depth ih =>
    exact fun h e hq => foldl_alike ih e (fun l hl => hq l (List.mem_filter.mp hl).1) hq []

end Hub

end PeerMesh
