import PeerMesh.Interpreter.Inbound
import PeerMesh.Interpreter.Outbound
import PeerMesh.Proofs.Wire.Envelope

namespace PeerMesh

open Json (Written)

namespace Command

def enveloped (c : Command) : Bytes :=
  Envelope.bytes ⟨protocolVersion, c⟩

/-- A peer with this limit can send the command. -/
def fits (limit : Nat) (c : Command) : Bool :=
  c.isFinite && c.enveloped.length ≤ limit

/-- A peer with the one limit can send the command to a peer with the other. -/
def crosses (sender receiver : Nat) (c : Command) : Bool :=
  c.fits sender && c.enveloped.length ≤ receiver && c.nesting ≤ Written.depthLimit

theorem isFinite_of_fits {limit : Nat} {c : Command} (h : c.fits limit) : c.isFinite :=
  (Bool.and_eq_true_iff.mp h).1

end Command

namespace Interpreter

theorem payload_eq_ok {i : Interpreter} {c : Command} {bs : Bytes} :
    i.payload c = .ok bs ↔ c.fits i.maxPayload ∧ bs = c.enveloped := by
  rw [payload, Command.fits, Bool.and_eq_true, decide_eq_true_iff]
  cases hf : c.isFinite with
  | false =>
    have he : encode c =
        .error (.serialization (c.kind.name ++ " command carries a non-finite float")) := by
      rw [encode, hf, if_neg Bool.false_ne_true]
    rw [he]
    simp
  | true =>
    rw [encode_of_isFinite hf]
    dsimp only
    rw [← Command.enveloped]
    split
    · next hlt =>
      have hle : ¬c.enveloped.length ≤ i.maxPayload := Nat.not_le.mpr hlt
      simp [hle]
    · next hlt =>
      have hle : c.enveloped.length ≤ i.maxPayload := Nat.not_lt.mp hlt
      simp [hle, eq_comm]

theorem payload_of_fits {i : Interpreter} {c : Command} (h : c.fits i.maxPayload) :
    i.payload c = .ok c.enveloped :=
  payload_eq_ok.mpr ⟨h, rfl⟩

theorem fits_eq_false {i : Interpreter} {c : Command} {e : CallError}
    (h : i.payload c = .error e) : c.fits i.maxPayload = false := by
  cases hf : c.fits i.maxPayload with
  | false => rfl
  | true =>
    rw [payload_of_fits hf] at h
    cases h

end Interpreter

def readWithin (limit : Nat) (payload : Bytes) : Option Command :=
  (decodeBounded limit payload).toOption

theorem decode_of_readWithin {limit : Nat} {payload : Bytes} {c : Command}
    (h : readWithin limit payload = some c) : decode payload = .ok c := by
  rw [readWithin, decodeBounded] at h
  split at h
  · cases h
  · cases hd : decode payload with
    | error e =>
      rw [hd] at h
      cases h
    | ok c' =>
      rw [hd] at h
      cases h
      rfl

theorem readWithin_enveloped {limit : Nat} {c : Command} (hf : c.isFinite) (hc : c.Canonical) :
    readWithin limit c.enveloped =
      if c.enveloped.length ≤ limit ∧ c.nesting ≤ Written.depthLimit then some c else none := by
  rw [readWithin, decodeBounded]
  by_cases hlen : c.enveloped.length ≤ limit
  · rw [if_neg (Nat.not_lt.mpr hlen)]
    by_cases hdepth : c.nesting ≤ Written.depthLimit
    · rw [if_pos ⟨hlen, hdepth⟩, Command.enveloped, decode_bytes_of_le hf hc hdepth]
      rfl
    · rw [if_neg fun h => hdepth h.2, Command.enveloped,
        decode_bytes_of_lt hf (Nat.not_le.mp hdepth)]
      rfl
  · rw [if_pos (Nat.not_le.mp hlen), if_neg fun h => hlen h.1]
    rfl

theorem readWithin_of_fits {sender receiver : Nat} {c : Command} (h : c.fits sender)
    (hc : c.Canonical) :
    readWithin receiver c.enveloped = if c.crosses sender receiver then some c else none := by
  rw [readWithin_enveloped (Command.isFinite_of_fits h) hc, Command.crosses, h]
  simp

theorem Site.decode_eq_ok {ν : Type} {s : Site ν} {payload : Bytes} {c : Command} :
    s.decode payload = .ok c ↔ readWithin s.interpreter.maxPayload payload = some c := by
  rw [decode, readWithin]
  cases decodeBounded s.interpreter.maxPayload payload with
  | error e => simp [Except.toOption]
  | ok c' => simp [Except.toOption]

end PeerMesh
