import PeerMesh.Proofs.Cluster.Traffic
import PeerMesh.Proofs.Interpreter.Frame

namespace PeerMesh

variable {ν : Type} {c : Cluster ν} {k : Nat} {s : Site ν} {w : Mesh}

theorem Mesh.neighbours_receiveBroadcast (w : Mesh) (k : Nat) :
    (w.receiveBroadcast k).2.neighbours = w.neighbours := by
  rw [receiveBroadcast]
  cases w.endpoints[k]? with
  | none => rfl
  | some e =>
    dsimp only
    split
    · rfl
    · rfl

theorem Pump.isRunning_of_servesBroadcast {p : Pump} (h : p.servesBroadcast) : p.isRunning := by
  cases p with
  | running => rfl
  | idle | ended => cases h

theorem Pump.isRunning_of_servesUnicast {p : Pump} (h : p.servesUnicast) : p.isRunning := by
  cases p with
  | running => rfl
  | idle | ended => cases h

theorem Interpreter.settle_of_isRunning {σ : Type} {i : Interpreter} (h : i.pump.isRunning)
    (link : Link σ) (x : σ) : i.settle link x = i.flush link x := by
  rw [settle]
  cases hp : i.pump with
  | running => rfl
  | idle | ended =>
    rw [hp] at h
    cases h

namespace Task

theorem perform_forward (hrun : s.interpreter.pump.isRunning) {out : Command}
    {rest : List Command} (hout : s.interpreter.outbox = out :: rest) :
    ∃ sent, (forward (ν := ν)).perform k s w = ([.forwarded out sent],
      { s with interpreter := (s.interpreter.forward (Mesh.link k) w).1 },
      (s.interpreter.forward (Mesh.link k) w).2) := by
  rw [perform, if_pos hrun, hout, Interpreter.forward, hout]
  exact ⟨_, rfl⟩

end Task

namespace Cluster

def put (c : Cluster ν) (k : Nat) (s : Site ν) (w : Mesh) : Cluster ν :=
  ⟨w, c.sites.set k s⟩

theorem put_put (c : Cluster ν) (k : Nat) (s t : Site ν) (w x : Mesh) :
    (c.put k s w).put k t x = c.put k t x := by
  rw [put, put, put, List.set_set]

theorem put_self (hs : c.sites[k]? = some s) : c.put k s c.mesh = c := by
  obtain ⟨hk, rfl⟩ := List.getElem?_eq_some_iff.mp hs
  rw [put, List.set_getElem_self]

/-- A flush is as many forwards as there are responses in the outbox. -/
theorem run_forwards (hs : c.sites[k]? = some s) (hrun : s.interpreter.pump.isRunning) :
    (c.run (List.replicate s.interpreter.outbox.length (.task k .forward))).2 =
        c.put k { s with interpreter := (s.interpreter.flush (Mesh.link k) c.mesh).1 }
          (s.interpreter.flush (Mesh.link k) c.mesh).2 ∧
      remarksAt k (c.run (List.replicate s.interpreter.outbox.length (.task k .forward))).1 =
        [] := by
  obtain ⟨n, hn⟩ : ∃ n, s.interpreter.outbox.length = n := ⟨_, rfl⟩
  rw [hn]
  induction n generalizing c s with
  | zero =>
    rw [s.interpreter.flush_of_nil _ _ (List.eq_nil_of_length_eq_zero hn)]
    exact ⟨(put_self hs).symm, rfl⟩
  | succ n ih =>
    obtain ⟨out, rest, hout⟩ := List.exists_cons_of_length_eq_add_one hn
    obtain ⟨sent, hforward⟩ := Task.perform_forward (k := k) (w := c.mesh) hrun hout
    have hs' : (c.put k { s with interpreter := (s.interpreter.forward (Mesh.link k) c.mesh).1 }
        (s.interpreter.forward (Mesh.link k) c.mesh).2).sites[k]? =
          some { s with interpreter := (s.interpreter.forward (Mesh.link k) c.mesh).1 } :=
      (getElem?_set_site hs _ k).trans (if_pos rfl)
    have hlen : (s.interpreter.forward (Mesh.link k) c.mesh).1.outbox.length = n := by
      rw [Interpreter.outbox_forward, hout, List.tail_cons]
      rw [hout, List.length_cons] at hn
      omega
    obtain ⟨hstate, hlog⟩ := ih hs' (by rw [Interpreter.pump_forward]; exact hrun) hlen
    rw [put_put] at hstate
    rw [List.replicate_succ, run, perform_task hs, hforward, s.interpreter.flush_of_cons _ _ hout]
    refine ⟨hstate, ?_⟩
    dsimp only
    rw [remarksAt_append, remarksAt_self]
    exact hlog

theorem run_settle (hs : c.sites[k]? = some s) {t : Task ν} {deeds : List (Deed ν)} {s' : Site ν}
    (ht : t.perform k s c.mesh = (deeds, s', w)) (hrun : s'.interpreter.pump.isRunning) :
    (c.run (.task k t :: List.replicate s'.interpreter.outbox.length (.task k .forward))).2 =
        c.put k { s' with interpreter := (s'.interpreter.settle (Mesh.link k) w).1 }
          (s'.interpreter.settle (Mesh.link k) w).2 ∧
      remarksAt k (c.run (.task k t ::
        List.replicate s'.interpreter.outbox.length (.task k .forward))).1 =
          deeds.flatMap Deed.remarks := by
  have hs' : (c.put k s' w).sites[k]? = some s' := (getElem?_set_site hs s' k).trans (if_pos rfl)
  obtain ⟨hstate, hlog⟩ := run_forwards hs' hrun
  rw [put_put] at hstate
  rw [run, perform_task hs, ht, Interpreter.settle_of_isRunning hrun]
  refine ⟨hstate, ?_⟩
  dsimp only
  rw [remarksAt_append, remarksAt_self]
  exact (congrArg (deeds.flatMap Deed.remarks ++ ·) hlog).trans (List.append_nil _)

theorem run_start (hs : c.sites[k]? = some s) (hidle : s.interpreter.pump = .idle) :
    (c.run (.task k .start ::
        List.replicate s.interpreter.outbox.length (.task k .forward))).2 =
      c.put k { s with interpreter := (s.interpreter.run (Mesh.link k) c.mesh).2.1 }
        (s.interpreter.run (Mesh.link k) c.mesh).2.2 := by
  have hstart : (Task.start (ν := ν)).perform k s c.mesh = ([],
      { s with interpreter := { s.interpreter with pump := .running true true } }, c.mesh) := by
    rw [Task.perform, if_pos hidle]
  obtain ⟨hstate, -⟩ := run_settle hs hstart rfl
  rw [Interpreter.run, if_pos hidle]
  exact hstate

/-- A step of the pump that serves a broadcast is a run of the cluster. -/
theorem run_serve (hs : c.sites[k]? = some s) (hserves : s.interpreter.pump.servesBroadcast)
    {payload : Bytes} (hr : c.mesh.receiveBroadcast k = (.item payload, w)) :
    ∃ n, (c.run (.task k .serve :: List.replicate n (.task k .forward))).2 =
        c.put k (s.pump (Mesh.link k) w.neighbours (.broadcast (.item payload)) w).1
          (s.pump (Mesh.link k) w.neighbours (.broadcast (.item payload)) w).2.2 ∧
      remarksAt k (c.run (.task k .serve :: List.replicate n (.task k .forward))).1 =
        (s.pump (Mesh.link k) w.neighbours (.broadcast (.item payload)) w).2.1 := by
  have hview : w.neighbours = c.mesh.neighbours := by
    have hneighbours := c.mesh.neighbours_receiveBroadcast k
    rw [hr] at hneighbours
    exact hneighbours
  have hserve : (Task.serve (ν := ν)).perform k s c.mesh =
      ([.served c.mesh.neighbours s payload],
        (s.receiveBroadcast c.mesh.neighbours payload).2.1, w) := by
    rw [Task.perform, if_pos hserves, hr]
  have hrun := Pump.isRunning_of_servesBroadcast hserves
  rw [← (s.receiveBroadcast_resembles c.mesh.neighbours payload).pump] at hrun
  obtain ⟨hstate, hlog⟩ := run_settle hs hserve hrun
  rw [hview, Site.pump]
  dsimp only
  rw [if_pos hserves]
  exact ⟨_, hstate, hlog.trans (List.append_nil _)⟩

theorem run_serveUnicast (hs : c.sites[k]? = some s) (hserves : s.interpreter.pump.servesUnicast)
    {sender : PeerId} {payload : Bytes}
    (hr : c.mesh.receiveUnicast k = (.item (sender, payload), w)) (view : View) :
    ∃ n, (c.run (.task k .serveUnicast :: List.replicate n (.task k .forward))).2 =
        c.put k (s.pump (Mesh.link k) view (.unicast (.item (sender, payload))) w).1
          (s.pump (Mesh.link k) view (.unicast (.item (sender, payload))) w).2.2 ∧
      remarksAt k (c.run (.task k .serveUnicast :: List.replicate n (.task k .forward))).1 =
        (s.pump (Mesh.link k) view (.unicast (.item (sender, payload))) w).2.1 := by
  have hserve : (Task.serveUnicast (ν := ν)).perform k s c.mesh =
      ([.noted (s.receiveUnicast sender payload).2.2],
        (s.receiveUnicast sender payload).2.1, w) := by
    rw [Task.perform, if_pos hserves, hr]
  have hrun := Pump.isRunning_of_servesUnicast hserves
  rw [← s.receiveUnicast_interpreter sender payload] at hrun
  obtain ⟨hstate, hlog⟩ := run_settle hs hserve hrun
  rw [Site.pump]
  dsimp only
  rw [if_pos hserves]
  exact ⟨_, hstate, hlog.trans (List.append_nil _)⟩

end Cluster

end PeerMesh
