import PeerMesh.Interpreter.Outbound
import PeerMesh.Interpreter.Pump
import PeerMesh.Mesh

namespace PeerMesh

inductive Observation
  | broadcastSent (label : String) (token : Token) (payload : Bytes)
      (result : Except TransportError Unit)
  | unicastSent (label : String) (target : PeerId) (payload : Bytes)
      (result : Except TransportError Unit)
  | event (label : String) (event : Event)
  | emitted (peer : PeerId) (key : String) (queued : Bool)
  | reduced (slot : String) (value : Fields Val) (job : JobId)

inductive PumpHandle
  | absent
  | held
  | awaited
  deriving DecidableEq

/-- An interpreter in its place: its endpoint, store and hub by their numbers, its recorders, the
arrivals that come before those of the mesh, and the failures that its next sends run into. Of one
that was dropped only the pump is left, and only while a task waits for the end of it. -/
structure Node where
  label : String
  endpoint : Nat
  store : Nat
  hub : Nat
  interpreter : Interpreter
  recorders : List Subscription
  handle : PumpHandle
  dropped : Bool
  broadcastArrivals : List (Arrival Bytes)
  unicastArrivals : List (Arrival (PeerId × Bytes))
  broadcastFailures : List TransportError
  unicastFailures : List TransportError

structure Kept where
  node : Nat
  emitter : Nat
  job : JobId

/-- Stores, hubs and nodes are known by their places, and nodes by their labels too, in the order in
which they were added. A node that was dropped stays in its place, and keeps its label until that is
used again. -/
structure Network where
  mesh : Mesh
  stores : List Store
  hubs : List (Hub Observation)
  nodes : List Node
  labels : List (String × Nat)
  sharedStores : Dict Nat
  sharedHubs : Dict Nat
  reductions : Dict (Nat × MapReduce)
  kept : Dict Kept

structure Wires where
  mesh : Mesh
  broadcastFailures : List TransportError
  unicastFailures : List TransportError
  seen : List Observation

namespace Wires

def broadcast (endpoint : Nat) (payload : Bytes) (token : Token) (w : Wires) :
    Except TransportError Unit × Wires :=
  match w.broadcastFailures with
  | e :: rest => (.error e, { w with broadcastFailures := rest })
  | [] =>
    let (result, mesh) := w.mesh.broadcast endpoint payload token
    (result, { w with mesh := mesh })

def unicast (endpoint : Nat) (payload : Bytes) (target : PeerId) (w : Wires) :
    Except TransportError Unit × Wires :=
  match w.unicastFailures with
  | e :: rest => (.error e, { w with unicastFailures := rest })
  | [] =>
    let (result, mesh) := w.mesh.unicast endpoint target payload
    (result, { w with mesh := mesh })

def observe (w : Wires) (o : Observation) : Wires :=
  { w with seen := w.seen ++ [o] }

def link (label : String) (endpoint : Nat) : Link Wires where
  broadcast payload token w :=
    let (result, w) := w.broadcast endpoint payload token
    (result, w.observe (.broadcastSent label token payload result))
  unicast payload target w :=
    let (result, w) := w.unicast endpoint payload target
    (result, w.observe (.unicastSent label target payload result))

end Wires

def Remark.observation? (peer : PeerId) : Remark Observation → Option Observation
  | mapping .. => none
  | emitted _ _ key _ queued => some (.emitted peer key queued)
  | kept .. => none
  | moment (.called ..) => none
  | moment (.noted o) => some o

namespace Network

def empty : Network where
  mesh := .empty
  stores := []
  hubs := []
  nodes := []
  labels := []
  sharedStores := .empty
  sharedHubs := .empty
  reductions := .empty
  kept := .empty

def node? (net : Network) (label : String) : Option Nat :=
  net.labels.lookup label

def store (net : Network) (n : Node) : Store :=
  net.stores[n.store]?.getD .empty

def hub (net : Network) (n : Node) : Hub Observation :=
  net.hubs[n.hub]?.getD .empty

def setStore (net : Network) (n : Node) (s : Store) : Network :=
  { net with stores := net.stores.set n.store s }

def setHub (net : Network) (n : Node) (h : Hub Observation) : Network :=
  { net with hubs := net.hubs.set n.hub h }

def setNode (net : Network) (index : Nat) (n : Node) : Network :=
  { net with nodes := net.nodes.set index n }

def view (net : Network) : View :=
  net.mesh.neighbours

def site (net : Network) (n : Node) : Site Observation :=
  ⟨n.interpreter, net.store n, net.hub n⟩

def wires (net : Network) (n : Node) : Wires :=
  ⟨net.mesh, n.broadcastFailures, n.unicastFailures, []⟩

def put (net : Network) (index : Nat) (n : Node) (s : Site Observation) (w : Wires) : Network :=
  let net := (net.setStore n s.store).setHub n s.hub
  let net := { net with mesh := w.mesh }
  net.setNode index
    { n with
      interpreter := s.interpreter
      broadcastFailures := w.broadcastFailures
      unicastFailures := w.unicastFailures }

/-- Notes the emitters that mappers of a node kept. A later one under a name takes the place of an
earlier one. -/
def keep (net : Network) (index : Nat) (remarks : List (Remark Observation)) : Network :=
  remarks.foldl
    (fun net r =>
      match r with
      | .kept slot emitter job => { net with kept := net.kept.insert slot ⟨index, emitter, job⟩ }
      | _ => net)
    net

/-- What serving a payload at `peer` shows: first what it did there, then what was sent. -/
def observations (peer : PeerId) (remarks : List (Remark Observation)) (w : Wires) :
    List Observation :=
  remarks.filterMap (Remark.observation? peer) ++ w.seen

end Network

end PeerMesh
