import PeerMesh.Network.Step
import PeerMesh.Proofs.Interpreter.Frame
import PeerMesh.Proofs.Interpreter.Traceless

namespace PeerMesh

namespace Arrival

variable {α β : Type}

def map (f : α → β) : Arrival α → Arrival β
  | item a => item (f a)
  | closed => closed
  | failed e => failed e

def item? : Arrival α → Option α
  | item a => some a
  | _ => none

/-- What a channel brings before it closes or fails for the first time. -/
def untilEnd : List (Arrival α) → List α
  | item a :: rest => a :: untilEnd rest
  | _ => []

def stayOpen (arrivals : List (Arrival α)) : Bool :=
  arrivals.all fun a => a.item?.isSome

end Arrival

def Intake.channel : Intake → Channel
  | broadcast .. => .broadcast
  | unicast .. => .unicast

namespace Delivery

def channel : Delivery → Channel
  | broadcast _ => .broadcast
  | unicast _ => .unicast

def arrival (view : View) : Delivery → Arrival Intake
  | broadcast a => a.map (.broadcast view)
  | unicast a => a.map fun m => .unicast m.1 m.2

theorem channel_of_arrival {view : View} {d : Delivery} {x : Intake}
    (h : d.arrival view = .item x) : x.channel = d.channel := by
  cases d with
  | broadcast a | unicast a =>
    cases a with
    | item | closed | failed => cases h <;> rfl

end Delivery

namespace Pump

def serves (p : Pump) : Channel → Bool
  | .broadcast => p.servesBroadcast
  | .unicast => p.servesUnicast

def close (p : Pump) : Channel → Pump
  | .broadcast => p.closeBroadcast
  | .unicast => p.closeUnicast

def serving (isOpen : Channel → Bool) : Pump :=
  if isOpen .broadcast || isOpen .unicast then running (isOpen .broadcast) (isOpen .unicast)
  else ended

variable (isOpen : Channel → Bool)

theorem serving_ne_idle : serving isOpen ≠ idle := by
  rw [serving]
  split
  · exact Pump.noConfusion
  · exact Pump.noConfusion

theorem serving_eq_ended : serving isOpen = ended ↔ ∀ c, isOpen c = false := by
  rw [serving]
  constructor
  · intro h c
    split at h
    · cases h
    · next hclosed => cases c <;> simp_all
  · intro h
    simp [h]

theorem serves_serving (c : Channel) : (serving isOpen).serves c = isOpen c := by
  rw [serving]
  cases hb : isOpen .broadcast <;> cases hu : isOpen .unicast <;> cases c <;> simp [*] <;> rfl

theorem close_serving {c : Channel} (h : isOpen c = true) :
    (serving isOpen).close c = serving fun d => isOpen d && d ≠ c := by
  rw [serving, serving]
  cases hb : isOpen .broadcast <;> cases hu : isOpen .unicast <;> cases c <;> simp_all <;> rfl

end Pump

namespace Site

variable {ν σ : Type}

/-- The loop takes a delivery, if it still serves the channel, and has not yet broadcast any
response then. -/
def take (s : Site ν) (view : View) (d : Delivery) : Site ν :=
  if s.interpreter.pump.serves d.channel then
    match (d.arrival view).item? with
    | some x => (s.serve x).after
    | none => { s with interpreter := s.interpreter.setPump (s.interpreter.pump.close d.channel) }
  else s

def settled (link : Link σ) (s : Site ν) (w : σ) : Site ν × σ :=
  ({ s with interpreter := (s.interpreter.settle link w).1 }, (s.interpreter.settle link w).2)

/-- A pump that serves the channel of a delivery serves its payload and then broadcasts what waits,
or it moves on as the channel has come to its end. -/
theorem pump_eq (link : Link σ) (s : Site ν) (view : View) (d : Delivery) (w : σ) :
    s.pump link view d w =
      if s.interpreter.pump.serves d.channel then
        match (d.arrival view).item? with
        | some x =>
          (((s.serve x).after.settled link w).1, (s.serve x).remarks,
            ((s.serve x).after.settled link w).2)
        | none =>
          ({ s with interpreter := s.interpreter.setPump (s.interpreter.pump.close d.channel) },
            [], w)
      else (s, [], w) := by
  cases d with
  | broadcast a =>
    by_cases h : s.interpreter.pump.servesBroadcast
    · cases a <;> simp [pump, Pump.serves, Delivery.channel, h] <;> rfl
    · simp [pump, Pump.serves, Delivery.channel, h]
  | unicast a =>
    by_cases h : s.interpreter.pump.servesUnicast
    · cases a <;> simp [pump, Pump.serves, Delivery.channel, h] <;> rfl
    · simp [pump, Pump.serves, Delivery.channel, h]

theorem pump_eq_take (link : Link σ) (s : Site ν) (view : View) (d : Delivery) (w : σ) :
    ((s.pump link view d w).1, (s.pump link view d w).2.2) =
      if s.interpreter.pump.serves d.channel && (d.arrival view).item?.isSome then
        (s.take view d).settled link w
      else (s.take view d, w) := by
  rw [pump_eq, take]
  cases s.interpreter.pump.serves d.channel with
  | false => rfl
  | true =>
    cases (d.arrival view).item? with
    | some x => rfl
    | none => rfl

/-- What happens at a peer: its loop takes a delivery, or something else is done. A move can be a
delivery too, after which the pump broadcasts what waits before anything else is done. -/
inductive Turn (ν σ : Type)
  | take (view : View) (d : Delivery)
  | move (m : Move ν σ)

namespace Turn

def delivery? : Turn ν σ → Option (View × Delivery)
  | take view d => some (view, d)
  | move (.deliver view d) => some (view, d)
  | move _ => none

def isRun : Turn ν σ → Bool
  | move .run => true
  | _ => false

def isStop : Turn ν σ → Bool
  | move .stop => true
  | _ => false

/-- What the turn brings on a channel. To be stopped is to the pump as if both channels closed. -/
def on (c : Channel) (t : Turn ν σ) : Option (Arrival Intake) :=
  if t.isStop then some .closed
  else t.delivery?.bind fun d => if d.2.channel = c then some (d.2.arrival d.1) else none

variable (link : Link σ)

def perform : Turn ν σ → Site ν → σ × List Attempt → Option CallError × Site ν × σ × List Attempt
  | take view d, s, w => (none, s.take view d, w)
  | move m, s, w => m.perform link s w

def served? (t : Turn ν σ) (p : Pump) : Option Intake :=
  t.delivery?.bind fun d => if p.serves d.2.channel then (d.2.arrival d.1).item? else none

def drive (t : Turn ν σ) (p : Pump) : Pump :=
  if t.isRun then if p = .idle then .running true true else p
  else if t.isStop then .ended
  else
    match t.delivery? with
    | none => p
    | some (view, d) =>
      if p.serves d.channel && (d.arrival view).item?.isNone then p.close d.channel else p

end Turn

variable (link : Link σ) (s : Site ν)

theorem pump_take (view : View) (d : Delivery) :
    (s.take view d).interpreter.pump =
      if s.interpreter.pump.serves d.channel && (d.arrival view).item?.isNone then
        s.interpreter.pump.close d.channel
      else s.interpreter.pump := by
  rw [take]
  cases s.interpreter.pump.serves d.channel with
  | false => rfl
  | true =>
    cases (d.arrival view).item? with
    | some x => exact (s.serve_resembles x).pump
    | none => exact s.interpreter.pump_setPump _

theorem pump_pump (view : View) (d : Delivery) (w : σ) :
    (s.pump link view d w).1.interpreter.pump = (s.take view d).interpreter.pump := by
  have h := congrArg Prod.fst (s.pump_eq_take link view d w)
  dsimp only at h
  rw [h]
  split
  · exact Interpreter.pump_settle _ link w
  · rfl

theorem Move.pump_of_call {m : Move ν σ} {call : Call ν} (h : m.call? = some call)
    (w : σ × List Attempt) : (m.perform link s w).2.1.interpreter.pump = s.interpreter.pump := by
  obtain ⟨clock, ids, hframe⟩ := call.perform_frame link.recorded s w
  rw [perform_of_call link h, hframe]

theorem Turn.perform_pump (t : Turn ν σ) (w : σ × List Attempt) :
    (t.perform link s w).2.1.interpreter.pump = t.drive s.interpreter.pump := by
  cases t with
  | take view d => exact s.pump_take view d
  | move m =>
    cases m with
    | broadcast | unicast | custom | mapReduce => exact Move.pump_of_call link s rfl w
    | receiveBroadcast view payload => exact (s.receiveBroadcast_resembles view payload).pump
    | receiveUnicast sender payload =>
      exact congrArg Interpreter.pump (s.receiveUnicast_interpreter sender payload)
    | emit emitter job key v =>
      exact (Interpreter.Resembles.emit s.interpreter emitter job key v).pump
    | run => exact s.interpreter.pump_run link.recorded w
    | deliver view d => exact (s.pump_pump link.recorded view d w).trans (s.pump_take view d)
    | forward => exact s.interpreter.pump_forward link.recorded w
    | settle => exact s.interpreter.pump_settle link.recorded w
    | stop | disturb => rfl

end Site

end PeerMesh
