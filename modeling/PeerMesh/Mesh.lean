import PeerMesh.Fields
import PeerMesh.Transport

namespace PeerMesh

structure Endpoint where
  peer : PeerId
  broadcasts : List Bytes
  unicasts : List (PeerId × Bytes)
  broadcastOpen : Bool
  unicastOpen : Bool

/-- Endpoints are known by their place in the list. Of each origin, the highest counter of a token
that was accepted is kept. -/
structure Mesh where
  endpoints : List Endpoint
  routes : Dict Nat
  delivered : Dict UInt64

/-- What a receiver finds. A queue is closed when it is empty and nothing can be added to it. -/
inductive Received (α : Type)
  | item (a : α)
  | empty
  | closed

namespace Endpoint

def pushBroadcast (payload : Bytes) (e : Endpoint) : Endpoint :=
  if e.broadcastOpen then { e with broadcasts := e.broadcasts ++ [payload] } else e

def pushUnicast (sender : PeerId) (payload : Bytes) (e : Endpoint) : Endpoint :=
  { e with unicasts := e.unicasts ++ [(sender, payload)] }

end Endpoint

namespace Mesh

def empty : Mesh :=
  ⟨[], .empty, .empty⟩

def modify (m : Mesh) (ep : Nat) (f : Endpoint → Endpoint) : Mesh :=
  { m with endpoints := m.endpoints.modify ep f }

/-- A new endpoint, which becomes the current one of the peer. -/
def join (m : Mesh) (peer : PeerId) : Nat × Mesh :=
  (m.endpoints.length,
    { m with
      endpoints := m.endpoints ++ [⟨peer, [], [], true, true⟩]
      routes := m.routes.insert peer.id m.endpoints.length })

def leave (m : Mesh) (peer : PeerId) : Mesh :=
  { m with routes := m.routes.erase peer.id }

/-- Every joined peer but `peer`, in ascending order. -/
def neighbours (m : Mesh) (peer : PeerId) : List PeerId :=
  (m.routes.keys.filter (· ≠ peer.id)).map PeerId.mk

def last (m : Mesh) (origin : PeerId) : UInt64 :=
  (m.delivered.get? origin.id).getD 0

def recipients (m : Mesh) (peer : PeerId) : List Nat :=
  (m.routes.fields.filter fun r => r.1 ≠ peer.id).map (·.2)

/-- Accepts a broadcast whose token is newer than all accepted ones of its origin, and queues it for
every peer but that of the endpoint it is sent from. -/
def broadcast (m : Mesh) (ep : Nat) (payload : Bytes) (token : Token) :
    Except TransportError Unit × Mesh :=
  match m.endpoints[ep]? with
  | none => (.error (.connectionLost "Channel closed"), m)
  | some e =>
    if token.counter ≤ m.last token.origin then (.error (.staleToken token), m)
    else
      let m := { m with delivered := m.delivered.insert token.origin.id token.counter }
      (.ok (),
        (m.recipients e.peer).foldl (fun m r => m.modify r (Endpoint.pushBroadcast payload)) m)

def unicast (m : Mesh) (ep : Nat) (target : PeerId) (payload : Bytes) :
    Except TransportError Unit × Mesh :=
  match m.endpoints[ep]?, m.routes.get? target.id with
  | none, _ => (.error (.connectionLost "Channel closed"), m)
  | some _, none => (.error (.unknownPeer target), m)
  | some e, some r =>
    match m.endpoints[r]? with
    | none => (.error (.connectionLost "Channel closed"), m)
    | some receiver =>
      if receiver.unicastOpen then (.ok (), m.modify r (Endpoint.pushUnicast e.peer payload))
      else (.error (.connectionLost "Channel closed"), m)

def isRouted (m : Mesh) (ep : Nat) (e : Endpoint) : Bool :=
  m.routes.get? e.peer.id == some ep

def receiveBroadcast (m : Mesh) (ep : Nat) : Received Bytes × Mesh :=
  match m.endpoints[ep]? with
  | none => (.closed, m)
  | some e =>
    match e.broadcasts with
    | payload :: rest => (.item payload, m.modify ep fun e => { e with broadcasts := rest })
    | [] => (if m.isRouted ep e then .empty else .closed, m)

def receiveUnicast (m : Mesh) (ep : Nat) : Received (PeerId × Bytes) × Mesh :=
  match m.endpoints[ep]? with
  | none => (.closed, m)
  | some e =>
    match e.unicasts with
    | item :: rest => (.item item, m.modify ep fun e => { e with unicasts := rest })
    | [] => (if m.isRouted ep e then .empty else .closed, m)

def dropBroadcast (m : Mesh) (ep : Nat) : Mesh :=
  m.modify ep fun e => { e with broadcasts := [], broadcastOpen := false }

def dropUnicast (m : Mesh) (ep : Nat) : Mesh :=
  m.modify ep fun e => { e with unicasts := [], unicastOpen := false }

end Mesh

end PeerMesh
