import PeerMesh.Interpreter.Inbound

namespace PeerMesh

/-- The interpreters differ at most in what waits in the outbox and in the emitters. -/
structure Interpreter.Resembles (i j : Interpreter) : Prop where
  peer : i.peer = j.peer
  protocol : i.protocol = j.protocol
  registry : i.registry = j.registry
  mappers : i.mappers = j.mappers
  maxPayload : i.maxPayload = j.maxPayload
  clock : i.clock = j.clock
  jobIds : i.jobIds = j.jobIds
  pump : i.pump = j.pump

namespace Interpreter.Resembles

variable {i j k : Interpreter}

theorem refl (i : Interpreter) : Resembles i i :=
  ⟨rfl, rfl, rfl, rfl, rfl, rfl, rfl, rfl⟩

theorem trans (h : Resembles i j) (h' : Resembles j k) : Resembles i k :=
  ⟨h.peer.trans h'.peer, h.protocol.trans h'.protocol, h.registry.trans h'.registry,
    h.mappers.trans h'.mappers, h.maxPayload.trans h'.maxPayload, h.clock.trans h'.clock,
    h.jobIds.trans h'.jobIds, h.pump.trans h'.pump⟩

theorem emit (i : Interpreter) (emitter : Nat) (job : JobId) (key : String) (v : Val) :
    Resembles (i.emit emitter job key v).2 i := by
  rw [Interpreter.emit]
  split
  · exact refl i
  · split
    · exact refl i
    · dsimp only
      split
      · exact ⟨rfl, rfl, rfl, rfl, rfl, rfl, rfl, rfl⟩
      · exact ⟨rfl, rfl, rfl, rfl, rfl, rfl, rfl, rfl⟩

theorem newEmitter (i : Interpreter) (shape : ResponseShape) :
    Resembles (i.newEmitter shape).2 i :=
  ⟨rfl, rfl, rfl, rfl, rfl, rfl, rfl, rfl⟩

end Interpreter.Resembles

open Interpreter (Resembles)

variable {ν : Type} (view : View)

theorem Script.run_resembles (emitter : Nat) (job : JobId) (script : Script) (s : Site ν) :
    Resembles (script.run view emitter job s).2.1.interpreter s.interpreter := by
  induction script generalizing s with
  | done | fail message | panic => exact .refl _
  | emit target key v next ih => exact (ih _ _).trans (.emit _ emitter target key v)
  | resolve key next ih =>
    rw [run]
    split
    · exact .refl _
    · exact ih _ _
  | insert key v next ih | insertRecipe key r next ih | remove key next ih => exact ih _
  | retain slot next ih => exact ih s

namespace Site

/-- There is a mapper of that name, and a value under the key. -/
def finds (s : Site ν) (key mapper : String) : Prop :=
  (s.interpreter.mappers.get? mapper).isSome ∧ ∃ v, (s.store.resolve view key).1 = .ok (some v)

variable (s : Site ν)

/-- A custom command runs a script with a new emitter, or nothing is found. -/
theorem receiveCustom_cases (job : JobId) (key mapper : String) (shape : ResponseShape) :
    (¬s.finds view key mapper ∧ ∃ store,
      (s.receiveCustom view job key mapper shape).2 = ({ s with store := store }, [])) ∨
    (s.finds view key mapper ∧ ∃ (script : Script) (store : Store),
      (s.receiveCustom view job key mapper shape).2 =
        ((script.run view (s.interpreter.newEmitter shape).1 job
          ⟨(s.interpreter.newEmitter shape).2, store, s.hub⟩).2.1,
        .mapping (s.interpreter.newEmitter shape).1 job shape ::
          (script.run view (s.interpreter.newEmitter shape).1 job
            ⟨(s.interpreter.newEmitter shape).2, store, s.hub⟩).2.2)) := by
  rw [receiveCustom, finds]
  cases s.interpreter.mappers.get? mapper with
  | none => exact .inl ⟨fun h => (by cases h.1), s.store, rfl⟩
  | some f =>
    dsimp only
    obtain ⟨_ | _ | v, store⟩ := s.store.resolve view key
    · exact .inl ⟨fun ⟨_, v, h⟩ => (by cases h), store, rfl⟩
    · exact .inl ⟨fun ⟨_, v, h⟩ => (by cases h), store, rfl⟩
    · let i := (s.interpreter.newEmitter shape).2
      refine .inr ⟨⟨rfl, v, rfl⟩, f job ⟨i.peer, i.registry⟩ v, store, ?_⟩
      dsimp only
      split
      · next h => rw [h]
      · next h => rw [h]
      · next h => rw [h]

theorem receiveCustom_resembles (job : JobId) (key mapper : String) (shape : ResponseShape) :
    Resembles (s.receiveCustom view job key mapper shape).2.1.interpreter s.interpreter := by
  obtain ⟨-, store, h⟩ | ⟨-, script, store, h⟩ := s.receiveCustom_cases view job key mapper shape
  · rw [h]
    exact .refl _
  · rw [h]
    exact (script.run_resembles view _ job _).trans (.newEmitter s.interpreter shape)

theorem receiveBroadcast_custom {s : Site ν} {payload : Bytes} {job : JobId} {key mapper : String}
    {shape : ResponseShape} (h : s.decode payload = .ok (.custom job key mapper shape)) :
    (s.receiveBroadcast view payload).2 = (s.receiveCustom view job key mapper shape).2 := by
  rw [receiveBroadcast, h]
  dsimp only
  split
  · next hs => rw [hs]
  · next hs => rw [hs]

theorem receiveBroadcast_resembles (payload : Bytes) :
    Resembles (s.receiveBroadcast view payload).2.1.interpreter s.interpreter := by
  cases hd : s.decode payload with
  | error e =>
    rw [receiveBroadcast, hd]
    exact .refl _
  | ok c =>
    cases c with
    | custom job key mapper shape =>
      rw [receiveBroadcast_custom view hd]
      exact s.receiveCustom_resembles view job key mapper shape
    | rpc | customResponse =>
      rw [receiveBroadcast, hd]
      exact .refl _

theorem receiveUnicast_interpreter (sender : PeerId) (payload : Bytes) :
    (s.receiveUnicast sender payload).2.1.interpreter = s.interpreter := by
  rw [receiveUnicast]
  split
  · rfl
  · rfl
  · rfl

end Site

end PeerMesh
