import PeerMesh.Interpreter.Inbound
import PeerMesh.Interpreter.Outbound

namespace PeerMesh

inductive Delivery
  | broadcast (arrival : Arrival Bytes)
  | unicast (arrival : Arrival (PeerId × Bytes))

namespace Pump

def servesBroadcast : Pump → Bool
  | running broadcast _ => broadcast
  | _ => false

def servesUnicast : Pump → Bool
  | running _ unicast => unicast
  | _ => false

def closeBroadcast : Pump → Pump
  | running _ true => running false true
  | running _ false => ended
  | p => p

def closeUnicast : Pump → Pump
  | running true _ => running true false
  | running false _ => ended
  | p => p

end Pump

namespace Interpreter

def setPump (i : Interpreter) (p : Pump) : Interpreter :=
  match p with
  | .ended => i.stop
  | p => { i with pump := p }

variable {σ : Type} (link : Link σ)

/-- Broadcasts what waits in the outbox, in order. What cannot be sent is dropped. -/
def flush (i : Interpreter) (w : σ) : Interpreter × σ :=
  i.outbox.foldl
    (fun (i, w) c =>
      let (_, i, w) := i.sendBroadcast link c w
      (i, w))
    ({ i with outbox := [] }, w)

def settle (i : Interpreter) (w : σ) : Interpreter × σ :=
  match i.pump with
  | .running .. => i.flush link w
  | _ => (i, w)

def run (i : Interpreter) (w : σ) : Except CallError Unit × Interpreter × σ :=
  if i.pump = .idle then
    let (i, w) := { i with pump := .running true true }.flush link w
    (.ok (), i, w)
  else (.error .alreadyRunning, i, w)

end Interpreter

namespace Site

variable {ν σ : Type} (link : Link σ) (view : View)

/-- One step of the pump, if it serves the channel. A channel that closes or fails is not served
again; whatever a payload does, the pump goes on. -/
def pump (s : Site ν) (delivery : Delivery) (w : σ) : Site ν × List (Remark ν) × σ :=
  match delivery with
  | .broadcast arrival =>
    if s.interpreter.pump.servesBroadcast then
      match arrival with
      | .item payload =>
        let (_, s, log) := s.receiveBroadcast view payload
        let (i, w) := s.interpreter.settle link w
        ({ s with interpreter := i }, log, w)
      | _ =>
        ({ s with interpreter := s.interpreter.setPump s.interpreter.pump.closeBroadcast }, [], w)
    else (s, [], w)
  | .unicast arrival =>
    if s.interpreter.pump.servesUnicast then
      match arrival with
      | .item (sender, payload) =>
        let (_, s, log) := s.receiveUnicast sender payload
        let (i, w) := s.interpreter.settle link w
        ({ s with interpreter := i }, log, w)
      | _ =>
        ({ s with interpreter := s.interpreter.setPump s.interpreter.pump.closeUnicast }, [], w)
    else (s, [], w)

end Site

end PeerMesh
