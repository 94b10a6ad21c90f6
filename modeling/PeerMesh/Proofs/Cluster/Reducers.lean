import PeerMesh.Proofs.Cluster.Traffic

namespace PeerMesh

variable {ν : Type}

/-- The responses to `job` that a peer with this limit reads. -/
def answersIn (job : JobId) (limit : Nat) (payloads : List Bytes) : List (Fields Val × Command) :=
  payloads.filterMap fun p => (readWithin limit p).bind (Command.answer? job)

theorem answersIn_append (job : JobId) (limit : Nat) (payloads more : List Bytes) :
    answersIn job limit (payloads ++ more) =
      answersIn job limit payloads ++ answersIn job limit more :=
  List.filterMap_append

theorem answersIn_singleton (job : JobId) (limit : Nat) (payload : Bytes) :
    answersIn job limit [payload] =
      ((readWithin limit payload).bind (Command.answer? job)).toList := by
  rw [answersIn, List.filterMap_cons, List.filterMap_nil]
  cases (readWithin limit payload).bind (Command.answer? job) with
  | none => rfl
  | some r => rfl

namespace Task

/-- Nothing is started that makes up a response to `job`. -/
def Spares (job : JobId) : Task ν → Prop
  | mapReduce _ _ _ reducer => reducer.Spares job
  | use op => op.Spares job
  | _ => True

def Keeps (subscription : Subscription) : Task ν → Prop
  | use op => op.Keeps subscription
  | _ => True

variable {k : Nat} {s : Site ν} {w : Mesh} {job : JobId} {t : Task ν}

theorem mapReduce_perform_hub (key mapper : String) (shape : ResponseShape) (reducer : Reducer ν) :
    ((mapReduce key mapper shape reducer).perform k s w).2.1.hub =
      (s.mapReduce (Mesh.link k) key mapper shape reducer w).2.1.hub := by
  rw [perform]
  obtain ⟨e | m, s', w'⟩ := s.mapReduce (Mesh.link k) key mapper shape reducer w
  · rfl
  · rfl

theorem mapReduce_perform_remarks (key mapper : String) (shape : ResponseShape)
    (reducer : Reducer ν) :
    ((mapReduce key mapper shape reducer).perform k s w).1.flatMap Deed.remarks = [] ∧
      ((mapReduce key mapper shape reducer).perform k s w).1.filterMap Deed.served? = [] := by
  rw [perform]
  obtain ⟨e | m, s', w'⟩ := s.mapReduce (Mesh.link k) key mapper shape reducer w
  · exact ⟨rfl, rfl⟩
  · exact ⟨rfl, rfl⟩

theorem calls_remarks {α : Type} (c : α → Command) (r : Except CallError α) :
    (calls (ν := ν) c r).flatMap Deed.remarks = [] ∧
      (calls (ν := ν) c r).filterMap Deed.served? = [] := by
  cases r with
  | error e => exact ⟨rfl, rfl⟩
  | ok a => exact ⟨rfl, rfl⟩

theorem perform_ready (hr : s.hub.Ready job) (ht : t.Spares job) :
    (t.perform k s w).2.1.hub.Ready job := by
  cases t with
  | broadcast | unicast | put => exact hr
  | custom key mapper shape =>
    have hhub := s.executeCustom_hub (Mesh.link k) key mapper shape w
    rw [perform]
    dsimp only
    rw [hhub]
    exact hr
  | mapReduce key mapper shape reducer =>
    rw [mapReduce_perform_hub]
    exact Site.mapReduce_ready (Mesh.link k) key mapper shape w hr ht
  | start =>
    rw [perform]
    split
    · exact hr
    · exact hr
  | serve =>
    rw [perform]
    split
    · split
      · exact Site.receiveBroadcast_ready _ hr _
      · exact hr
      · exact hr
    · exact hr
  | serveUnicast =>
    rw [perform]
    split
    · split
      · exact Site.receiveUnicast_ready hr _ _
      · exact hr
      · exact hr
    · exact hr
  | forward =>
    rw [perform]
    split
    · split
      · exact hr
      · exact hr
    · exact hr
  | emit n job key v =>
    rw [perform]
    split
    · exact hr
    · exact hr
  | use op => exact hr.perform ht

variable {subscription : Subscription} {listener : Listener ν}

/-- A watched subscription stays so, and its listener is called with the responses that the task
serves. -/
theorem perform_watches (hw : s.hub.Watches subscription job listener) (ht : t.Spares job)
    (hk : t.Keeps subscription) :
    (t.perform k s w).2.1.hub.Watches subscription job listener ∧
      reductions subscription job (moments ((t.perform k s w).1.flatMap Deed.remarks)) =
        answersIn job s.interpreter.maxPayload ((t.perform k s w).1.filterMap Deed.served?) := by
  cases t with
  | broadcast name args =>
    obtain ⟨hremarks, hserved⟩ := calls_remarks (ν := ν) Sent.command
      (s.interpreter.executeBroadcast (Mesh.link k) name args w).1
    refine ⟨hw, ?_⟩
    rw [perform]
    dsimp only
    rw [hremarks, hserved]
    rfl
  | custom key mapper shape =>
    have hhub := s.executeCustom_hub (Mesh.link k) key mapper shape w
    obtain ⟨hremarks, hserved⟩ := calls_remarks (ν := ν) (fun job => .custom job key mapper shape)
      (s.executeCustom (Mesh.link k) key mapper shape w).1
    rw [perform]
    dsimp only
    rw [hhub, hremarks, hserved]
    exact ⟨hw, rfl⟩
  | mapReduce key mapper shape reducer =>
    obtain ⟨hremarks, hserved⟩ := mapReduce_perform_remarks (k := k) (s := s) (w := w) key mapper
      shape reducer
    rw [mapReduce_perform_hub, hremarks, hserved]
    exact ⟨Site.mapReduce_watches (Mesh.link k) key mapper shape w hw ht, rfl⟩
  | unicast | put => exact ⟨hw, rfl⟩
  | start =>
    rw [perform]
    split
    · exact ⟨hw, rfl⟩
    · exact ⟨hw, rfl⟩
  | serve =>
    rw [perform]
    split
    · split
      · next payload w' _ =>
        obtain ⟨hwatch, hred⟩ := Site.receiveBroadcast_watches w.neighbours hw payload
        refine ⟨hwatch, ?_⟩
        rw [List.flatMap_singleton]
        exact hred.trans (answersIn_singleton job _ payload).symm
      · exact ⟨hw, rfl⟩
      · exact ⟨hw, rfl⟩
    · exact ⟨hw, rfl⟩
  | serveUnicast =>
    rw [perform]
    split
    · split
      · next sender payload w' _ =>
        obtain ⟨hwatch, hred⟩ := Site.receiveUnicast_watches hw sender payload
        refine ⟨hwatch, ?_⟩
        rw [List.flatMap_singleton]
        exact hred
      · exact ⟨hw, rfl⟩
      · exact ⟨hw, rfl⟩
    · exact ⟨hw, rfl⟩
  | forward =>
    rw [perform]
    split
    · split
      · exact ⟨hw, rfl⟩
      · exact ⟨hw, rfl⟩
    · exact ⟨hw, rfl⟩
  | emit n job key v =>
    rw [perform]
    split
    · exact ⟨hw, rfl⟩
    · exact ⟨hw, rfl⟩
  | use op =>
    obtain ⟨hwatch, hred⟩ := hw.perform ht hk
    refine ⟨hwatch, ?_⟩
    rw [perform]
    dsimp only
    rw [List.flatMap_singleton]
    dsimp only [Deed.remarks]
    rw [moments_map, hred]
    rfl

end Task

namespace Cluster

variable {c : Cluster ν} {n : Nat} {a : Nat} {job : JobId} {moves : List (Move ν)}

def ReadyAt (c : Cluster ν) (a : Nat) (job : JobId) : Prop :=
  ∀ s, c.sites[a]? = some s → s.hub.Ready job

theorem readyAt (hc : c.Sound n) (ho : c.Orderly moves) (hn : n + moves.length + 1 < 2 ^ 64)
    (hspares : ∀ t, .task a t ∈ moves → t.Spares job) (h : c.ReadyAt a job) :
    (c.run moves).2.ReadyAt a job := by
  refine (run_induction (Q := fun m => ∀ t, m = .task a t → t.Spares job)
    (P := fun _ c _ => c.ReadyAt a job) (d := []) (fun h => h) ?_ ?_ ?_ hc ho hn h).2
  · intro m c past x _ _ h s hs
    rw [perform_join, getElem?_append_site] at hs
    split at hs
    · cases hs
      exact Hub.Ready.empty job x.depth
    · exact h s hs
  · intro m c past k s t ht _ _ hs h s' hs'
    rw [perform_task hs, getElem?_set_site hs] at hs'
    split at hs'
    · next hak =>
      subst hak
      cases hs'
      exact Task.perform_ready (h s hs) (ht t rfl)
    · exact h s' hs'
  · rintro m hm t rfl
    exact hspares t hm

def WatchesAt (c : Cluster ν) (a limit : Nat) (subscription : Subscription) (job : JobId)
    (listener : Listener ν) (trace : Trace ν) : Prop :=
  ∃ s, c.sites[a]? = some s ∧ s.interpreter.maxPayload = limit ∧
    s.hub.Watches subscription job listener ∧
    reductions subscription job (moments (remarksAt a trace)) =
      answersIn job limit (servedAt a trace)

theorem watchesAt {limit : Nat} {subscription : Subscription} {listener : Listener ν}
    (hc : c.Sound n) (ho : c.Orderly moves) (hn : n + moves.length + 1 < 2 ^ 64)
    (hspares : ∀ t, .task a t ∈ moves → t.Spares job)
    (hkeeps : ∀ t, .task a t ∈ moves → t.Keeps subscription) {past : Trace ν}
    (h : c.WatchesAt a limit subscription job listener past) :
    (c.run moves).2.WatchesAt a limit subscription job listener (past ++ (c.run moves).1) := by
  refine (run_induction
    (Q := fun m => ∀ t, m = .task a t → t.Spares job ∧ t.Keeps subscription)
    (P := fun _ c trace => c.WatchesAt a limit subscription job listener trace)
    (fun h => h) ?_ ?_ ?_ hc ho hn h).2
  · rintro m c past x _ _ ⟨s, hs, hlimit, hw, hred⟩
    refine ⟨s, ?_, hlimit, hw, hred⟩
    rw [perform_join, getElem?_append_site, if_neg, hs]
    exact Nat.ne_of_lt (List.getElem?_eq_some_iff.mp hs).1
  · rintro m c past k s t ht hc hm hs ⟨s', hs', hlimit, hw, hred⟩
    have hmax := ((Task.effect (hc.placed (by omega) hs) t).frame (hc.agrees k s hs).opened).2.1
    rw [perform_task hs]
    by_cases hak : a = k
    · subst hak
      cases hs.symm.trans hs'
      obtain ⟨hw', hred'⟩ :=
        Task.perform_watches (k := a) (w := c.mesh) hw (ht t rfl).1 (ht t rfl).2
      refine ⟨_, (getElem?_set_site hs _ a).trans (if_pos rfl), hmax.trans hlimit, hw', ?_⟩
      rw [remarksAt_append, moments_append, reductions_append, hred, servedAt_append,
        answersIn_append, remarksAt_self, servedAt_self, hred', hlimit]
    · refine ⟨s', ?_, hlimit, hw, ?_⟩
      · exact (getElem?_set_site hs _ a).trans ((if_neg hak).trans hs')
      · rw [remarksAt_append, servedAt_append, remarksAt_other (Ne.symm hak),
          servedAt_other (Ne.symm hak), List.append_nil, List.append_nil, hred]
  · rintro m hm t rfl
    exact ⟨hspares t hm, hkeeps t hm⟩

end Cluster

end PeerMesh
