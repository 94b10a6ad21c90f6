import PeerMesh.Proofs.Interpreter.Payload
import PeerMesh.Proofs.Interpreter.Mappings

namespace PeerMesh

variable {ν : Type}

def Remark.queued? : Remark ν → Option Command
  | emitted _ job key v true => some (.response job key v)
  | _ => none

/-- The responses that were put into the outbox. -/
def queuedIn (log : List (Remark ν)) : List Command :=
  log.filterMap Remark.queued?

theorem queuedIn_append (log more : List (Remark ν)) :
    queuedIn (log ++ more) = queuedIn log ++ queuedIn more :=
  List.filterMap_append

theorem queuedIn_cons (r : Remark ν) (log : List (Remark ν)) :
    queuedIn (r :: log) = r.queued?.toList ++ queuedIn log := by
  cases h : r.queued? <;> simp [queuedIn, h]

theorem mem_queuedIn {log : List (Remark ν)} {c : Command} :
    c ∈ queuedIn log ↔
      ∃ n job key v, .emitted n job key v true ∈ log ∧ c = .response job key v := by
  rw [queuedIn, List.mem_filterMap]
  constructor
  · rintro ⟨r, hr, hc⟩
    cases r with
    | mapping | kept | moment => cases hc
    | emitted n job key v queued =>
      cases queued with
      | false => cases hc
      | true => exact ⟨n, job, key, v, hr, (Option.some.inj hc).symm⟩
  · rintro ⟨n, job, key, v, hr, rfl⟩
    exact ⟨_, hr, rfl⟩

theorem queuedIn_of_isInert {log : List (Remark ν)} (h : ∀ r ∈ log, r.isInert) :
    queuedIn log = [] := by
  refine List.filterMap_eq_nil_iff.mpr fun r hr => ?_
  have hinert := h r hr
  cases r with
  | mapping | emitted => cases hinert
  | kept | moment => rfl

def Remark.isCall : Remark ν → Bool
  | emitted .. => true
  | _ => false

theorem length_queuedIn_le (log : List (Remark ν)) :
    (queuedIn log).length ≤ log.countP Remark.isCall := by
  induction log with
  | nil => exact Nat.le_refl _
  | cons r log ih =>
    have hone : r.queued?.toList.length ≤ if r.isCall then 1 else 0 := by
      cases r with
      | emitted n job key v queued => cases queued <;> simp [Remark.queued?, Remark.isCall]
      | mapping | kept | moment => simp [Remark.queued?]
    rw [queuedIn_cons, List.length_append, List.countP_cons]
    omega

namespace Interpreter

theorem outbox_emit (i : Interpreter) (n : Nat) (job : JobId) (key : String) (v : Val) :
    (i.emit n job key v).2.outbox =
      i.outbox ++ queuedIn (ν := ν) [.emitted n job key v (i.emit n job key v).1] := by
  rw [emit]
  split
  · simp [queuedIn, Remark.queued?]
  · split
    · simp [queuedIn, Remark.queued?]
    · dsimp only
      split
      · simp [queuedIn, Remark.queued?]
      · simp [queuedIn, Remark.queued?]

end Interpreter

variable (view : View)

theorem Script.run_outbox (emitter : Nat) (job : JobId) (script : Script) (s : Site ν) :
    (script.run view emitter job s).2.1.interpreter.outbox =
      s.interpreter.outbox ++ queuedIn (script.run view emitter job s).2.2 := by
  induction script generalizing s with
  | done | fail message | panic => exact (List.append_nil _).symm
  | emit target key v next ih =>
    have hrest := ih (s.interpreter.emit emitter target key v).1
      { s with interpreter := (s.interpreter.emit emitter target key v).2 }
    rw [Interpreter.outbox_emit (ν := ν), List.append_assoc, ← queuedIn_append] at hrest
    exact hrest
  | resolve key next ih =>
    rw [run]
    split
    · exact (List.append_nil _).symm
    · exact ih _ _
  | insert key v next ih | insertRecipe key r next ih | remove key next ih => exact ih _
  | retain slot next ih => exact ih s

namespace Site

variable {s : Site ν}

theorem receiveCustom_outbox (job : JobId) (key mapper : String) (shape : ResponseShape) :
    (s.receiveCustom view job key mapper shape).2.1.interpreter.outbox =
      s.interpreter.outbox ++ queuedIn (s.receiveCustom view job key mapper shape).2.2 := by
  obtain ⟨-, store, h⟩ | ⟨-, script, store, h⟩ := s.receiveCustom_cases view job key mapper shape
  · rw [h]
    exact (List.append_nil _).symm
  · rw [h]
    exact script.run_outbox view _ job _

theorem decode_cases (s : Site ν) (payload : Bytes) :
    (∃ job key mapper shape, s.decode payload = .ok (.custom job key mapper shape)) ∨
      ∀ c, s.decode payload = .ok c → c.kind ≠ .custom := by
  cases s.decode payload with
  | error e => simp
  | ok c => cases c <;> simp [Command.kind]

theorem isInert_receiveBroadcast {payload : Bytes}
    (h : ∀ c, s.decode payload = .ok c → c.kind ≠ .custom) :
    (s.receiveBroadcast view payload).2.1.interpreter = s.interpreter ∧
      ∀ r ∈ (s.receiveBroadcast view payload).2.2, r.isInert := by
  cases hd : s.decode payload with
  | error e => simp [receiveBroadcast, hd]
  | ok c =>
    cases c with
    | custom job key mapper shape => exact absurd rfl (h _ hd)
    | rpc | customResponse =>
      rw [receiveBroadcast, hd]
      exact ⟨rfl, s.isInert_emit _⟩

theorem receiveBroadcast_outbox (payload : Bytes) :
    (s.receiveBroadcast view payload).2.1.interpreter.outbox =
      s.interpreter.outbox ++ queuedIn (s.receiveBroadcast view payload).2.2 := by
  obtain ⟨job, key, mapper, shape, hd⟩ | h := s.decode_cases payload
  · rw [receiveBroadcast_custom view hd]
    exact receiveCustom_outbox view job key mapper shape
  · obtain ⟨hsame, hinert⟩ := isInert_receiveBroadcast view h
    rw [hsame, queuedIn_of_isInert hinert, List.append_nil]

end Site

end PeerMesh
