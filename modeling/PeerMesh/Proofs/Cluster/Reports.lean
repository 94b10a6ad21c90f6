import PeerMesh.Proofs.Cluster.Orderly
import PeerMesh.Proofs.Interpreter.Calls
import PeerMesh.Proofs.Interpreter.Heard

namespace PeerMesh

variable {ν : Type}

def Interpreter.OnlyResponds (i : Interpreter) : Prop :=
  ∀ c ∈ i.outbox, c.kind = .customResponse

theorem Interpreter.OnlyResponds.emit {i : Interpreter} (h : i.OnlyResponds) (emitter : Nat)
    (job : JobId) (key : String) (v : Val) : (i.emit emitter job key v).2.OnlyResponds := by
  rw [Interpreter.emit]
  split
  · exact h
  · split
    · exact h
    · dsimp only
      split
      · intro c hc
        obtain hc | hc := List.mem_append.mp hc
        · exact h c hc
        · cases List.mem_singleton.mp hc
          rfl
      · exact h

theorem Script.run_onlyResponds (view : View) (emitter : Nat) (job : JobId) (script : Script)
    {s : Site ν} (h : s.interpreter.OnlyResponds) :
    (script.run view emitter job s).2.1.interpreter.OnlyResponds := by
  induction script generalizing s with
  | done | fail message | panic => exact h
  | emit target key v next ih => exact ih _ (h.emit emitter target key v)
  | resolve key next ih =>
    rw [run]
    split
    · exact h
    · exact ih _ h
  | insert key v next ih | insertRecipe key r next ih | remove key next ih => exact ih h
  | retain slot next ih => exact ih h

theorem Site.receiveBroadcast_onlyResponds {s : Site ν} (h : s.interpreter.OnlyResponds)
    (view : View) (payload : Bytes) :
    (s.receiveBroadcast view payload).2.1.interpreter.OnlyResponds := by
  cases hd : s.decode payload with
  | error e =>
    rw [receiveBroadcast, hd]
    exact h
  | ok c =>
    cases c with
    | custom job key mapper shape =>
      rw [receiveBroadcast_custom view hd]
      obtain ⟨-, store, hc⟩ | ⟨-, script, store, hc⟩ :=
        s.receiveCustom_cases view job key mapper shape
      · rw [hc]
        exact h
      · rw [hc]
        have hnew : (s.interpreter.newEmitter shape).2.OnlyResponds := h
        exact script.run_onlyResponds view _ job hnew
    | rpc | customResponse =>
      rw [receiveBroadcast, hd]
      exact h

structure Interpreter.Continues (i j : Interpreter) : Prop where
  peer : j.peer = i.peer
  registry : j.registry = i.registry
  maxPayload : j.maxPayload = i.maxPayload
  outbox : i.OnlyResponds → j.OnlyResponds

theorem Interpreter.Continues.refl (i : Interpreter) : i.Continues i :=
  ⟨rfl, rfl, rfl, id⟩

theorem Interpreter.Continues.setPump (i : Interpreter) (p : Pump) :
    i.Continues (i.setPump p) := by
  cases p with
  | ended => exact ⟨rfl, rfl, rfl, fun _ c hc => by cases hc⟩
  | idle | running => exact ⟨rfl, rfl, rfl, id⟩

inductive Report
  | joined (p : PeerId)
  | left (p : PeerId)
  | broadcast (sender : PeerId) (c : Command)
  | unicast (sender target : PeerId) (c : Command)
  | refused (sender : PeerId) (e : CallError)
  | emitted (p : PeerId) (events : List Event)

def Report.sending? : Report → Option (PeerId × Command)
  | broadcast sender c => some (sender, c)
  | unicast sender _ c => some (sender, c)
  | _ => none

def Call.report (call : Call ν) (sender : PeerId) : Except CallError Ack → Report
  | .error e => .refused sender e
  | .ok a =>
    match call with
    | unicast target _ _ => .unicast sender target (call.acknowledged a)
    | _ => .broadcast sender (call.acknowledged a)

namespace Task

def call? : Task ν → Option (Call ν)
  | broadcast name args => some (.broadcast name args)
  | unicast target name args => some (.unicast target name args)
  | custom key mapper shape => some (.custom key mapper shape)
  | mapReduce key mapper shape reducer => some (.mapReduce key mapper shape reducer)
  | _ => none

def report (k : Nat) : Task ν → Site ν → Mesh → Option Report
  | serve, s, w =>
    if s.interpreter.pump.servesBroadcast then
      match w.receiveBroadcast k with
      | (.item payload, _) =>
        some (.emitted s.interpreter.peer (s.broadcastEvents w.neighbours payload))
      | _ => none
    else none
  | serveUnicast, s, w =>
    if s.interpreter.pump.servesUnicast then
      match w.receiveUnicast k with
      | (.item (sender, payload), _) =>
        some (.emitted s.interpreter.peer (s.unicastEvents sender payload))
      | _ => none
    else none
  | forward, s, w =>
    if s.interpreter.pump.isRunning then
      match s.interpreter.outbox with
      | [] => none
      | c :: rest =>
        match ({ s.interpreter with outbox := rest }.sendBroadcast (Mesh.link k) c w).1 with
        | .error e => some (.refused s.interpreter.peer e)
        | .ok sent => some (.broadcast s.interpreter.peer sent.command)
    else none
  | t, s, w =>
    t.call?.map fun call => call.report s.interpreter.peer (call.perform (Mesh.link k) s w).1

theorem perform_call {t : Task ν} {call : Call ν} (h : t.call? = some call) (k : Nat)
    (s : Site ν) (w : Mesh) :
    (t.perform k s w).2 = (call.perform (Mesh.link k) s w).2 ∧
      t.report k s w =
        some (call.report s.interpreter.peer (call.perform (Mesh.link k) s w).1) := by
  cases t with
  | broadcast | unicast | custom =>
    cases h
    exact ⟨rfl, rfl⟩
  | mapReduce key mapper shape reducer =>
    cases h
    refine ⟨?_, rfl⟩
    rw [perform, Call.perform]
    split
    · next hm => rw [hm]
    · next hm => rw [hm]
  | start | serve | serveUnicast | forward | emit | use | put => cases h

end Task

namespace Cluster

def report (c : Cluster ν) : Move ν → Option Report
  | .join x => some (.joined x.peer)
  | .leave p => some (.left p)
  | .task k t =>
    match c.sites[k]? with
    | none => none
    | some s => t.report k s c.mesh

/-- What can be told after a run. The latest report comes first. -/
def reports : Cluster ν → List (Move ν) → List Report → List Report
  | _, [], past => past
  | c, m :: moves, past => reports (c.perform m).2 moves ((c.report m).toList ++ past)

end Cluster

end PeerMesh
