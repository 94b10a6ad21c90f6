import PeerMesh.Proofs.Interpreter.Calls

namespace PeerMesh

namespace Interpreter

theorem of_build {settings : Settings} {store store' : Store} {i : Interpreter}
    (h : build settings store = .ok (i, store')) :
    i.pump = .idle ∧ i.outbox = [] ∧ i.emitters = [] ∧ i.maxPayload = settings.maxPayload := by
  rw [build] at h
  split at h
  · cases h
  · split at h
    · cases h
    · cases h
      exact ⟨rfl, rfl, rfl, rfl⟩

variable {σ : Type} (i : Interpreter) (link : Link σ) (w : σ)

theorem sendBroadcast_frame (c : Command) :
    ∃ clock, (i.sendBroadcast link c w).2.1 = { i with clock := clock } := by
  obtain ⟨e, -, h⟩ | ⟨bs, e, v, -, -, h⟩ | ⟨bs, v, -, -, h⟩ := i.sendBroadcast_cases link c w
  · exact ⟨i.clock, congrArg (·.2.1) h⟩
  · exact ⟨i.clock, congrArg (·.2.1) h⟩
  · exact ⟨i.clock.commit i.clock.peek, congrArg (·.2.1) h⟩

theorem forward_frame :
    ∃ clock, (i.forward link w).1 = { i with clock := clock, outbox := i.outbox.tail } := by
  rw [forward]
  split
  · next h => exact ⟨i.clock, by rw [h, List.tail_nil, ← h]⟩
  · next c rest h =>
    obtain ⟨clock, hsend⟩ := { i with outbox := rest }.sendBroadcast_frame link w c
    exact ⟨clock, by rw [h]; exact hsend⟩

theorem flush_frame :
    ∃ clock, (i.flush link w).1 = { i with clock := clock, outbox := [] } := by
  obtain ⟨n, hn⟩ : ∃ n, i.outbox.length = n := ⟨_, rfl⟩
  induction n generalizing i w with
  | zero =>
    have hnil := List.eq_nil_of_length_eq_zero hn
    exact ⟨i.clock, by rw [i.flush_of_nil link w hnil, ← hnil]⟩
  | succ n ih =>
    obtain ⟨c, rest, h⟩ := List.exists_cons_of_length_eq_add_one hn
    obtain ⟨clock, hforward⟩ := i.forward_frame link w
    have hlen : (i.forward link w).1.outbox.length = n := by
      rw [outbox_forward, List.length_tail, hn, Nat.add_sub_cancel]
    obtain ⟨clock', hrest⟩ := ih (i.forward link w).1 (i.forward link w).2 hlen
    exact ⟨clock', by rw [i.flush_of_cons link w h, hrest, hforward]⟩

theorem pump_forward : (i.forward link w).1.pump = i.pump := by
  obtain ⟨clock, h⟩ := i.forward_frame link w
  rw [h]

theorem pump_flush : (i.flush link w).1.pump = i.pump := by
  obtain ⟨clock, h⟩ := i.flush_frame link w
  rw [h]

theorem pump_settle : (i.settle link w).1.pump = i.pump := by
  rw [settle]
  split
  · exact i.pump_flush link w
  · rfl

theorem pump_run :
    (i.run link w).2.1.pump = if i.pump = .idle then .running true true else i.pump := by
  rw [run]
  split
  · exact pump_flush _ link w
  · rfl

theorem pump_setPump (p : Pump) : (i.setPump p).pump = p := by
  cases p with
  | idle | running | ended => rfl

end Interpreter

/-- A call changes nothing else, whatever comes of it. -/
theorem Call.perform_frame {ν σ : Type} (link : Link σ) (call : Call ν) (s : Site ν) (w : σ) :
    ∃ clock ids, (call.perform link s w).2.1.interpreter =
      { s.interpreter with clock := clock, jobIds := ids } := by
  have h := call.meets link s w
  dsimp only at h
  generalize call.perform link s w = done at h
  obtain ⟨r, t, v⟩ := done
  cases h with
  | obstacle e ho hi | refused e ho hand hi => exact ⟨_, _, hi⟩
  | accepted a ho hand hack hi => exact ⟨_, _, hi⟩

namespace Site.Move

variable {ν σ : Type} (link : Link σ)

def call? : Move ν σ → Option (Call ν)
  | broadcast name args => some (.broadcast name args)
  | unicast target name args => some (.unicast target name args)
  | custom key mapper shape => some (.custom key mapper shape)
  | mapReduce key mapper shape reducer => some (.mapReduce key mapper shape reducer)
  | _ => none

theorem perform_of_call {m : Move ν σ} {call : Call ν} (h : m.call? = some call) (s : Site ν)
    (w : σ × List Attempt) : (m.perform link s w).2 = (call.perform link.recorded s w).2 := by
  cases m with
  | broadcast | unicast | custom | mapReduce =>
    cases h
    rfl
  | receiveBroadcast | receiveUnicast | emit | run | deliver | forward | settle | stop | disturb =>
    cases h

end Site.Move

end PeerMesh
