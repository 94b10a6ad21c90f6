import PeerMesh.Proofs.Events

namespace PeerMesh

variable {ν : Type}

/-- What reactions that spare `job` preserve. -/
structure Hub.Invariant (job : JobId) (P : Hub ν → Prop) : Prop where
  post : ∀ {h : Hub ν} (mailbox : Nat) (e : Event), P h → P (h.post mailbox e)
  release : ∀ {h : Hub ν} (name : String), P h → P (h.release name)
  listen : ∀ {h : Hub ν} (name : String) (kind : EventKind) {added : Listener ν},
    (∀ e, (added e).Spares job) → P h → P (h.listen name kind added)
  spares : ∀ {h : Hub ν}, P h → ∀ l ∈ h.listeners, ∀ e, (l.listener e).Spares job

variable {s : Subscription} {job : JobId} {listener : Listener ν}

theorem Hub.Watches.invariant :
    Hub.Invariant job fun h : Hub ν => h.Watches s job listener where
  post mailbox e hw := hw.post mailbox e
  release name hw := hw.release name
  listen name kind _ ha hw := hw.listen name kind ha
  spares hw := hw.spares

theorem Hub.Ready.invariant : Hub.Invariant job fun h : Hub ν => h.Ready job where
  post mailbox e hr := hr.post mailbox e
  release name hr := hr.release name
  listen name kind _ ha hr := hr.listen name kind ha
  spares hr := hr.spares

theorem reductions_append (log more : List (Moment ν)) :
    reductions s job (log ++ more) = reductions s job log ++ reductions s job more :=
  List.filterMap_append

variable {P : Hub ν → Prop}

def Hub.Harmless (s : Subscription) (job : JobId) (P : Hub ν → Prop)
    (emit : Hub ν → Event → Hub ν × List (Moment ν)) : Prop :=
  ∀ h e, P h → e.reduction? job = none → P (emit h e).1 ∧ reductions s job (emit h e).2 = []

theorem Reaction.run_harmless (hP : Hub.Invariant job P)
    {emit : Hub ν → Event → Hub ν × List (Moment ν)} (hemit : Hub.Harmless s job P emit)
    {r : Reaction ν} (hr : r.Spares job) {h : Hub ν} (hh : P h) :
    P (r.run emit h).1 ∧ reductions s job (r.run emit h).2 = [] := by
  induction r generalizing h with
  | done | panic => exact ⟨hh, rfl⟩
  | note what next ih => exact ih hr hh
  | post mailbox e next ih => exact ih hr (hP.post mailbox e hh)
  | cancel name next ih => exact ih hr (hP.release name hh)
  | listen name kind added next _ ih => exact ih hr.2 (hP.listen name kind hr.1 hh)
  | emit e next ih =>
    obtain ⟨hh', hnone⟩ := hemit h e hh hr.1
    obtain ⟨hh'', hnone'⟩ := ih hr.2 hh'
    refine ⟨hh'', ?_⟩
    rw [run]
    dsimp only
    rw [reductions_append, hnone, hnone']
    rfl

namespace Hub

theorem foldl_reductions (hP : Invariant job P)
    {emit : Hub ν → Event → Hub ν × List (Moment ν)} (hemit : Harmless s job P emit) (e : Event)
    {ls : List (Registered ν)} (hls : ∀ l ∈ ls, ∀ e, (l.listener e).Spares job) {h : Hub ν}
    (hh : P h) (log : List (Moment ν)) :
    let last := ls.foldl
      (fun (h, log) l =>
        let (h, more) := (l.listener e).run emit h
        (h, log ++ .called l.id e :: more))
      (h, log)
    P last.1 ∧ reductions s job last.2 = reductions s job log ++
      (ls.filter fun l => l.id = s.id).filterMap fun _ => e.reduction? job := by
  induction ls generalizing h log with
  | nil => exact ⟨hh, (List.append_nil _).symm⟩
  | cons l ls ih =>
    obtain ⟨hh', hnone⟩ := Reaction.run_harmless hP hemit (hls l List.mem_cons_self e) hh
    obtain ⟨hlast, hred⟩ := ih (fun l' hl' => hls l' (List.mem_cons_of_mem _ hl')) hh'
      (log ++ .called l.id e :: ((l.listener e).run emit h).2)
    refine ⟨hlast, hred.trans ?_⟩
    rw [reductions_append, List.append_assoc]
    refine congrArg (reductions s job log ++ ·) ?_
    rw [← List.singleton_append, reductions_append, hnone, List.append_nil, reductions,
      List.filterMap_cons, List.filterMap_nil, Moment.reduction?]
    by_cases hl : l.id = s.id
    · rw [if_pos hl, List.filter_cons_of_pos (by simpa using hl), List.filterMap_cons]
      cases e.reduction? job with
      | none => rfl
      | some r => rfl
    · rw [if_neg hl, List.filter_cons_of_neg (by simpa using hl)]
      rfl

theorem emitWithin_harmless (hP : Invariant job P) (depth : Nat) :
    Harmless s job P (emitWithin depth) := by
  induction depth with
  | zero => exact fun h e hh _ => ⟨hh, rfl⟩
  | succ depth ih =>
    intro h e hh he
    have hls : ∀ l ∈ h.listening e.kind, ∀ e, (l.listener e).Spares job :=
      fun l hl => hP.spares hh l (List.mem_filter.mp hl).1
    obtain ⟨hlast, hred⟩ := foldl_reductions hP ih e hls hh []
    refine ⟨hlast, hred.trans ?_⟩
    rw [he]
    simp [reductions]

theorem emit_preserves (hP : Invariant job P) {h : Hub ν} (hh : P h) (e : Event) :
    P (h.emit e).1 := by
  have hls : ∀ l ∈ h.listening e.kind, ∀ e, (l.listener e).Spares job :=
    fun l hl => hP.spares hh l (List.mem_filter.mp hl).1
  exact (foldl_reductions (s := ⟨0⟩) hP (emitWithin_harmless hP h.depth) e hls hh []).1

/-- An event reaches the listener of the subscription once if it is a response to `job`, and else
not as one. -/
theorem Watches.reductions_emit {h : Hub ν} (hw : h.Watches s job listener) (e : Event) :
    reductions s job (h.emit e).2 = (e.reduction? job).toList := by
  have hls : ∀ l ∈ h.listening e.kind, ∀ e, (l.listener e).Spares job :=
    fun l hl => hw.spares l (List.mem_filter.mp hl).1
  obtain ⟨-, hred⟩ :=
    foldl_reductions Watches.invariant (emitWithin_harmless Watches.invariant h.depth) e hls hw []
  refine hred.trans ?_
  cases he : e.reduction? job with
  | none => simp [reductions]
  | some r =>
    have hkind : e.kind = .broadcastCustomResult := by
      cases e with
      | broadcastResult | unicastResult => cases he
      | broadcastCustomResult value c => rfl
    have hcomm : (h.listening e.kind).filter (fun l => l.id = s.id) =
        (h.listeners.filter fun l => l.id = s.id).filter fun l => l.kind = e.kind := by
      rw [Hub.listening, List.filter_filter, List.filter_filter]
      exact List.filter_congr fun l _ => Bool.and_comm _ _
    rw [hcomm, hw.listening, hkind]
    rfl

/-- What the owner of a hub can do with it. -/
inductive Op (ν : Type)
  | on (kind : EventKind) (listener : Listener ν)
  | channel (kind : EventKind)
  | cancel (s : Subscription)
  | listen (name : String) (kind : EventKind) (listener : Listener ν)
  | release (name : String)
  | detach (name : String)
  | drain (mailbox : Nat)
  | closeMailbox (mailbox : Nat)
  | dropAll
  | emit (event : Event)

def Op.perform : Op ν → Hub ν → Hub ν × List (Moment ν)
  | on kind listener, h => ((h.on kind listener).2, [])
  | channel kind, h => ((h.channel kind).2, [])
  | cancel s, h => (h.cancel s, [])
  | listen name kind listener, h => (h.listen name kind listener, [])
  | release name, h => (h.release name, [])
  | detach name, h => (h.detach name, [])
  | drain mailbox, h => ((h.drain mailbox).2, [])
  | closeMailbox mailbox, h => (h.closeMailbox mailbox, [])
  | dropAll, h => (h.dropAll, [])
  | emit event, h => h.emit event

def Op.Spares (job : JobId) : Op ν → Prop
  | on _ listener => ∀ e, (listener e).Spares job
  | listen _ _ listener => ∀ e, (listener e).Spares job
  | emit event => event.reduction? job = none
  | _ => True

def Op.Keeps (s : Subscription) : Op ν → Prop
  | cancel t => t.id ≠ s.id
  | dropAll => False
  | _ => True

theorem Ready.perform {h : Hub ν} (hr : h.Ready job) {op : Op ν} (ho : op.Spares job) :
    (op.perform h).1.Ready job := by
  cases op with
  | on kind listener => exact hr.on kind ho
  | channel kind =>
    have hon : (h.on kind fun e => .post h.next e .done).2.Ready job := hr.on kind fun e => trivial
    exact ⟨hon.ids, hon.held, hon.spares⟩
  | cancel t => exact hr.cancel t
  | listen name kind listener => exact hr.listen name kind ho
  | release name => exact hr.release name
  | detach name => exact hr.detach name
  | drain mailbox | closeMailbox mailbox => exact ⟨hr.ids, hr.held, hr.spares⟩
  | dropAll =>
    refine ⟨?_, hr.held, ?_⟩
    · intro l hl
      cases hl
    · intro l hl
      cases hl
  | emit e => exact emit_preserves Ready.invariant hr e

theorem Watches.perform {h : Hub ν} (hw : h.Watches s job listener) {op : Op ν}
    (ho : op.Spares job) (hk : op.Keeps s) :
    (op.perform h).1.Watches s job listener ∧ reductions s job (op.perform h).2 = [] := by
  cases op with
  | on kind added => exact ⟨hw.on kind ho, rfl⟩
  | channel kind =>
    have hon : (h.on kind fun e => .post h.next e .done).2.Watches s job listener :=
      hw.on kind fun e => trivial
    exact ⟨⟨hon.listening, hon.next, hon.held, hon.spares⟩, rfl⟩
  | cancel t => exact ⟨hw.cancel hk, rfl⟩
  | listen name kind added => exact ⟨hw.listen name kind ho, rfl⟩
  | release name => exact ⟨hw.release name, rfl⟩
  | detach name => exact ⟨hw.detach name, rfl⟩
  | drain mailbox | closeMailbox mailbox =>
    exact ⟨⟨hw.listening, hw.next, hw.held, hw.spares⟩, rfl⟩
  | dropAll => cases hk
  | emit e =>
    refine ⟨emit_preserves Watches.invariant hw e, (hw.reductions_emit e).trans ?_⟩
    rw [show e.reduction? job = none from ho]
    rfl

end Hub

end PeerMesh
