import PeerMesh.Proofs.Events.Reductions

namespace PeerMesh

variable {ν : Type}

/-- A subscription that starts now has a number that no other one has. -/
def Hub.Numbered (h : Hub ν) : Prop :=
  ∀ l ∈ h.listeners, l.id < h.next

namespace Hub.Numbered

variable {h : Hub ν}

theorem empty (depth : Nat) : (Hub.empty depth : Hub ν).Numbered := by
  intro l hl
  cases hl

theorem on (hn : h.Numbered) (kind : EventKind) (listener : Listener ν) :
    (h.on kind listener).2.Numbered := by
  intro l hl
  obtain hl | hl := List.mem_append.mp hl
  · exact Nat.lt_succ_of_lt (hn l hl)
  · cases List.mem_singleton.mp hl
    exact Nat.lt_succ_self _

theorem cancel (hn : h.Numbered) (s : Subscription) : (h.cancel s).Numbered :=
  fun l hl => hn l (List.mem_filter.mp hl).1

theorem release (hn : h.Numbered) (name : String) : (h.release name).Numbered := by
  rw [Hub.release]
  split
  · exact hn
  · exact hn.cancel _

theorem listen (hn : h.Numbered) (name : String) (kind : EventKind) (listener : Listener ν) :
    (h.listen name kind listener).Numbered :=
  (hn.on kind listener).release name

/-- A subscription that ends at once leaves the listeners as they were. -/
theorem cancel_on (hn : h.Numbered) (kind : EventKind) (listener : Listener ν) :
    (h.on kind listener).2.cancel ⟨h.next⟩ = { h with next := h.next + 1 } := by
  have hold : h.listeners.filter (fun l => l.id ≠ h.next) = h.listeners :=
    List.filter_eq_self.mpr fun l hl => decide_eq_true (Nat.ne_of_lt (hn l hl))
  rw [Hub.cancel, Hub.on]
  dsimp only
  rw [List.filter_append, hold, List.filter_cons_of_neg (by simp), List.filter_nil,
    List.append_nil]

theorem run {emit : Hub ν → Event → Hub ν × List (Moment ν)}
    (hemit : ∀ {h : Hub ν} (e : Event), h.Numbered → (emit h e).1.Numbered) (r : Reaction ν)
    (hn : h.Numbered) : (r.run emit h).1.Numbered := by
  induction r generalizing h with
  | done | panic => exact hn
  | note what next ih => exact ih hn
  | post mailbox e next ih => exact ih hn
  | cancel name next ih => exact ih (hn.release name)
  | listen name kind listener next _ ih => exact ih (hn.listen name kind listener)
  | emit e next ih => exact ih (hemit e hn)

theorem foldl {emit : Hub ν → Event → Hub ν × List (Moment ν)}
    (hemit : ∀ {h : Hub ν} (e : Event), h.Numbered → (emit h e).1.Numbered) (e : Event)
    (ls : List (Registered ν)) (hn : h.Numbered) (log : List (Moment ν)) :
    (ls.foldl
      (fun (h, log) l =>
        let (h, more) := (l.listener e).run emit h
        (h, log ++ .called l.id e :: more))
      (h, log)).1.Numbered := by
  induction ls generalizing h log with
  | nil => exact hn
  | cons l ls ih => exact ih (hn.run hemit (l.listener e)) _

theorem emitWithin (depth : Nat) (e : Event) (hn : h.Numbered) :
    (h.emitWithin depth e).1.Numbered := by
  induction depth generalizing h e with
  | zero => exact hn
  | succ depth ih => exact hn.foldl (fun e hn => ih e hn) e _ []

theorem emit (hn : h.Numbered) (e : Event) : (h.emit e).1.Numbered :=
  hn.emitWithin _ e

theorem perform (hn : h.Numbered) (op : Op ν) : (op.perform h).1.Numbered := by
  cases op with
  | on kind listener => exact hn.on kind listener
  | channel kind => exact hn.on kind fun e => .post h.next e .done
  | cancel s => exact hn.cancel s
  | listen name kind listener => exact hn.listen name kind listener
  | release name => exact hn.release name
  | detach | drain | closeMailbox => exact hn
  | dropAll =>
    intro l hl
    cases hl
  | emit e => exact hn.emit e

end Hub.Numbered

namespace Hub

def after (depth : Nat) (ops : List (Op ν)) : Hub ν :=
  ops.foldl (fun h op => (op.perform h).1) (empty depth)

theorem numbered_after (depth : Nat) (ops : List (Op ν)) : (after depth ops).Numbered :=
  List.foldlRecOn ops _ (.empty depth) fun _ hn op _ => hn.perform op

end Hub

end PeerMesh
