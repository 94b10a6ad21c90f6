import PeerMesh.Proofs.Events.Numbering
import PeerMesh.Proofs.Interpreter.Outbound
import PeerMesh.Proofs.Interpreter.Payload
import PeerMesh.Proofs.Interpreter.Reductions
import PeerMesh.Proofs.Interpreter.Run

namespace PeerMesh

/-- A payload goes to all others under a token, or to one peer. -/
inductive Addressing
  | broadcast (token : Token)
  | unicast (target : PeerId)

/-- One use of a transport, with its answer. -/
structure Handover where
  payload : Bytes
  addressing : Addressing
  result : Except TransportError Unit

def Handover.failure? (h : Handover) : Option TransportError :=
  match h.result with
  | .error e => some e
  | .ok () => none

namespace Link

variable {σ : Type} (link : Link σ)

def hand (payload : Bytes) : Addressing → σ → Except TransportError Unit × σ
  | .broadcast token => link.broadcast payload token
  | .unicast target => link.unicast payload target

/-- The same link, which also records every use of either transport. -/
def observed : Link (σ × List Handover) where
  broadcast payload token w :=
    let (result, v) := link.broadcast payload token w.1
    (result, v, w.2 ++ [⟨payload, .broadcast token, result⟩])
  unicast payload target w :=
    let (result, v) := link.unicast payload target w.1
    (result, v, w.2 ++ [⟨payload, .unicast target, result⟩])

variable {link}

theorem log_of_hand {payload : Bytes} {addressing : Addressing} {w v : σ × List Handover}
    {r : Except TransportError Unit} (h : link.observed.hand payload addressing w = (r, v)) :
    v.2 = w.2 ++ [⟨payload, addressing, r⟩] := by
  cases addressing with
  | broadcast token | unicast target =>
    cases h
    rfl

end Link

/-- Why a peer with this limit cannot send the command. -/
def Command.unfit? (limit : Nat) (c : Command) : Option CodecError :=
  if !c.isFinite then
    some (.serialization (c.kind.name ++ " command carries a non-finite float"))
  else if limit < c.enveloped.length then some (.payloadTooLarge limit c.enveloped.length)
  else none

theorem Command.unfit?_eq_none {limit : Nat} {c : Command} :
    c.unfit? limit = none ↔ c.isFinite ∧ c.enveloped.length ≤ limit := by
  rw [unfit?]
  cases c.isFinite with
  | false => simp
  | true => simp

namespace Interpreter

theorem payload_eq (i : Interpreter) (c : Command) :
    i.payload c =
      match c.unfit? i.maxPayload with
      | some e => .error (.codec e)
      | none => .ok c.enveloped := by
  rw [payload, encode, Command.unfit?, Command.enveloped]
  cases c.isFinite with
  | false => rfl
  | true =>
    rw [if_pos rfl, if_neg (by decide)]
    dsimp only
    split
    · rfl
    · rfl

variable {σ : Type} (i : Interpreter) (link : Link σ) (c : Command) (w : σ)

theorem sendBroadcast_handed :
    (∃ e, c.unfit? i.maxPayload = some e ∧
      i.sendBroadcast link c w = (.error (.codec e), i, w)) ∨
    (∃ e v, c.unfit? i.maxPayload = none ∧
      link.hand c.enveloped (.broadcast i.clock.peek) w = (.error e, v) ∧
      i.sendBroadcast link c w = (.error (.transport e), i, v)) ∨
    (∃ v, c.unfit? i.maxPayload = none ∧
      link.hand c.enveloped (.broadcast i.clock.peek) w = (.ok (), v) ∧
      i.sendBroadcast link c w = (.ok ⟨c, some i.clock.peek, none⟩,
        { i with clock := i.clock.commit i.clock.peek }, v)) := by
  rw [sendBroadcast, payload_eq]
  cases c.unfit? i.maxPayload with
  | some e => exact .inl ⟨e, rfl, rfl⟩
  | none =>
    dsimp only [Link.hand]
    rcases link.broadcast c.enveloped i.clock.peek w with ⟨r, v⟩
    cases r with
    | error e => exact .inr (.inl ⟨e, v, rfl, rfl, rfl⟩)
    | ok u => exact .inr (.inr ⟨v, rfl, rfl, rfl⟩)

theorem sendUnicast_handed (target : PeerId) :
    (∃ e, c.unfit? i.maxPayload = some e ∧
      i.sendUnicast link c target w = (.error (.codec e), w)) ∨
    (∃ e v, c.unfit? i.maxPayload = none ∧
      link.hand c.enveloped (.unicast target) w = (.error e, v) ∧
      i.sendUnicast link c target w = (.error (.transport e), v)) ∨
    (∃ v, c.unfit? i.maxPayload = none ∧
      link.hand c.enveloped (.unicast target) w = (.ok (), v) ∧
      i.sendUnicast link c target w = (.ok ⟨c, none, some target⟩, v)) := by
  rw [sendUnicast, payload_eq]
  cases c.unfit? i.maxPayload with
  | some e => exact .inl ⟨e, rfl, rfl⟩
  | none =>
    dsimp only [Link.hand]
    rcases link.unicast c.enveloped target w with ⟨r, v⟩
    cases r with
    | error e => exact .inr (.inl ⟨e, v, rfl, rfl, rfl⟩)
    | ok u => exact .inr (.inr ⟨v, rfl, rfl, rfl⟩)

end Interpreter

end PeerMesh
