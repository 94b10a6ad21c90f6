import PeerMesh.Network

namespace PeerMesh

inductive Channel
  | broadcast
  | unicast
  deriving DecidableEq

structure Setup where
  label : String
  settings : Settings
  fill : Store → Store
  sharedStore : Option String
  sharedHub : Option String
  recorded : Bool

structure Summary where
  peer : PeerId
  protocol : String
  operations : List String
  entries : Nat
  listeners : Nat

inductive Delivered
  | message
  | empty
  | closed
  | error
  | idle
  deriving DecidableEq

def Arrival.delivered {α : Type} : Arrival α → Delivered
  | item _ => .message
  | closed => .closed
  | failed _ => .error

inductive Action
  | broadcast (name : String) (args : List Val)
  | unicast (target : PeerId) (name : String) (args : List Val)
  | custom (key mapper : String) (shape : ResponseShape)
  | mapReduce (slot key mapper : String) (shape : ResponseShape) (reducer : Reducer Observation)
  | receiveBroadcast (payload : Bytes)
  | receiveUnicast (sender : PeerId) (payload : Bytes)
  | run
  | stop
  | await
  | deliver (channel : Channel)
  | emit (event : Event)

/-- What a peer can be told after it was dropped. -/
def Action.concernsPump : Action → Bool
  | stop => true
  | await => true
  | deliver _ => true
  | _ => false

inductive Reply
  | done
  | refused (e : CallError)
  | sent (s : Sent)
  | job (j : JobId)
  | reducing (result : Except CallError JobId) (listeners : Nat)
  | dispatched (result : Except DispatchError Unit)
  | had (b : Bool)
  | delivered (d : Delivered)

namespace Network

/-- The number of a store or hub that is shared under a name, if it is, and the same from now on. -/
def share (shared : Dict Nat) (name : Option String) (fresh : Nat) : Nat × Dict Nat :=
  match name with
  | none => (fresh, shared)
  | some name =>
    match shared.get? name with
    | some n => (n, shared)
    | none => (fresh, shared.insert name fresh)

def openStore (net : Network) (name : Option String) : Nat × Network :=
  let (n, shared) := share net.sharedStores name net.stores.length
  (n,
    { net with
      sharedStores := shared
      stores := if n = net.stores.length then net.stores ++ [.empty] else net.stores })

def openHub (net : Network) (name : Option String) : Nat × Network :=
  let (n, shared) := share net.sharedHubs name net.hubs.length
  (n,
    { net with
      sharedHubs := shared
      hubs := if n = net.hubs.length then net.hubs ++ [.empty] else net.hubs })

def record (h : Hub Observation) (label : String) : List Subscription × Hub Observation :=
  let recorder : Listener Observation := fun e => .note (.event label e) .done
  let (a, h) := h.on .broadcastResult recorder
  let (b, h) := h.on .broadcastCustomResult recorder
  let (c, h) := h.on .unicastResult recorder
  ([a, b, c], h)

/-- Nobody receives for a node that was dropped once its pump has ended. -/
def release (net : Network) (index : Nat) : Network :=
  match net.nodes[index]? with
  | none => net
  | some n =>
    if n.dropped && !n.interpreter.isOpen then
      { net with mesh := (net.mesh.dropBroadcast n.endpoint).dropUnicast n.endpoint }
    else net

/-- Drops a node. Its recorders end; its pump does too, unless a task waits for the end of it. -/
def retire (net : Network) (index : Nat) : Network :=
  match net.nodes[index]? with
  | none => net
  | some n =>
    let net := net.setHub n (n.recorders.foldl Hub.cancel (net.hub n))
    let n :=
      if n.handle = .awaited then n
      else { n with interpreter := n.interpreter.stop, handle := .absent }
    (net.setNode index { n with dropped := true }).release index

def setLabel (labels : List (String × Nat)) (label : String) (index : Nat) : List (String × Nat) :=
  (labels.filter fun l => l.1 ≠ label) ++ [(label, index)]

/-- A peer joins the mesh under its identifier before its interpreter is built. Should that fail,
nobody receives at its endpoint. A peer that had the label is dropped when the new one is there,
whose summary still counts its recorders. -/
def add (net : Network) (c : Setup) : Except CallError Summary × Network :=
  let (endpoint, mesh) := net.mesh.join c.settings.peer
  let (storeId, net) := { net with mesh := mesh }.openStore c.sharedStore
  let (hubId, net) := net.openHub c.sharedHub
  let store := c.fill (net.stores[storeId]?.getD .empty)
  match Interpreter.build c.settings store with
  | .error e =>
    (.error e,
      { net with
        stores := net.stores.set storeId store
        mesh := (net.mesh.dropBroadcast endpoint).dropUnicast endpoint })
  | .ok (interpreter, store) =>
    let hub := net.hubs[hubId]?.getD .empty
    let (recorders, hub) := if c.recorded then record hub c.label else ([], hub)
    let index := net.nodes.length
    let node : Node :=
      { label := c.label
        endpoint := endpoint
        store := storeId
        hub := hubId
        interpreter := interpreter
        recorders := recorders
        handle := .absent
        dropped := false
        broadcastArrivals := []
        unicastArrivals := []
        broadcastFailures := []
        unicastFailures := [] }
    let former := net.node? c.label
    let net :=
      { net with
        stores := net.stores.set storeId store
        hubs := net.hubs.set hubId hub
        nodes := net.nodes ++ [node]
        labels := setLabel net.labels c.label index }
    let net :=
      match former with
      | none => net
      | some old => net.retire old
    (.ok ⟨interpreter.peer, interpreter.protocol, interpreter.registry.names, store.size,
      hub.count⟩, net)

def drop (net : Network) (label : String) : Network :=
  match net.node? label with
  | none => net
  | some index => net.retire index

def leave (net : Network) (peer : PeerId) : Network :=
  { net with mesh := net.mesh.leave peer }

def modifyNode (net : Network) (label : String) (f : Node → Node) : Network :=
  match net.node? label with
  | none => net
  | some index => { net with nodes := net.nodes.modify index f }

/-- Puts an arrival in front of what the mesh delivers, behind those put there before. -/
def injectBroadcast (net : Network) (label : String) (a : Arrival Bytes) : Network :=
  net.modifyNode label fun n => { n with broadcastArrivals := n.broadcastArrivals ++ [a] }

def injectUnicast (net : Network) (label : String) (a : Arrival (PeerId × Bytes)) : Network :=
  net.modifyNode label fun n => { n with unicastArrivals := n.unicastArrivals ++ [a] }

def failSend (net : Network) (label : String) (channel : Channel) (e : TransportError) : Network :=
  net.modifyNode label fun n =>
    match channel with
    | .broadcast => { n with broadcastFailures := n.broadcastFailures ++ [e] }
    | .unicast => { n with unicastFailures := n.unicastFailures ++ [e] }

def pump (net : Network) (index : Nat) (n : Node) (d : Delivery) : Network × List Observation :=
  let (s, remarks, w) :=
    (net.site n).pump (Wires.link n.label n.endpoint) net.view d (net.wires n)
  (((net.put index n s w).keep index remarks).release index,
    observations n.interpreter.peer remarks w)

def deliverBroadcast (net : Network) (index : Nat) (n : Node) :
    Delivered × Network × List Observation :=
  if !n.interpreter.pump.servesBroadcast then (.idle, net, [])
  else
    match n.broadcastArrivals with
    | a :: rest =>
      (a.delivered, net.pump index { n with broadcastArrivals := rest } (.broadcast a))
    | [] =>
      match net.mesh.receiveBroadcast n.endpoint with
      | (.item payload, mesh) =>
        (.message, { net with mesh := mesh }.pump index n (.broadcast (.item payload)))
      | (.closed, _) => (.closed, net.pump index n (.broadcast .closed))
      | (.empty, _) => (.empty, net, [])

def deliverUnicast (net : Network) (index : Nat) (n : Node) :
    Delivered × Network × List Observation :=
  if !n.interpreter.pump.servesUnicast then (.idle, net, [])
  else
    match n.unicastArrivals with
    | a :: rest =>
      (a.delivered, net.pump index { n with unicastArrivals := rest } (.unicast a))
    | [] =>
      match net.mesh.receiveUnicast n.endpoint with
      | (.item item, mesh) =>
        (.message, { net with mesh := mesh }.pump index n (.unicast (.item item)))
      | (.closed, _) => (.closed, net.pump index n (.unicast .closed))
      | (.empty, _) => (.empty, net, [])

def deliver (net : Network) (index : Nat) (n : Node) :
    Channel → Delivered × Network × List Observation
  | .broadcast => net.deliverBroadcast index n
  | .unicast => net.deliverUnicast index n

def endReduction (net : Network) (slot : String) : Bool × Network :=
  match net.reductions.get? slot with
  | none => (false, net)
  | some (hub, m) =>
    (true,
      { net with
        hubs := net.hubs.modify hub m.cancel
        reductions := net.reductions.erase slot })

def act (net : Network) (index : Nat) (n : Node) : Action → Reply × Network × List Observation
  | .broadcast name args =>
    let link := Wires.link n.label n.endpoint
    let s := net.site n
    let (result, i, w) := s.interpreter.executeBroadcast link name args (net.wires n)
    (match result with
      | .ok sent => .sent sent
      | .error e => .refused e,
      net.put index n { s with interpreter := i } w, w.seen)
  | .unicast target name args =>
    let link := Wires.link n.label n.endpoint
    let s := net.site n
    let (result, w) := s.interpreter.executeUnicast link name args target (net.wires n)
    (match result with
      | .ok sent => .sent sent
      | .error e => .refused e,
      net.put index n s w, w.seen)
  | .custom key mapper shape =>
    let link := Wires.link n.label n.endpoint
    let (result, s, w) := (net.site n).executeCustom link key mapper shape (net.wires n)
    (match result with
      | .ok job => .job job
      | .error e => .refused e,
      net.put index n s w, w.seen)
  | .mapReduce slot key mapper shape reducer =>
    let link := Wires.link n.label n.endpoint
    let (result, s, w) := (net.site n).mapReduce link key mapper shape reducer (net.wires n)
    let net := net.put index n s w
    match result with
    | .error e => (.reducing (.error e) (net.hub n).count, net, w.seen)
    | .ok m =>
      let (_, net) := net.endReduction slot
      let net := { net with reductions := net.reductions.insert slot (n.hub, m) }
      (.reducing (.ok m.job) (net.hub n).count, net, w.seen)
  | .receiveBroadcast payload =>
    let (result, s, remarks) := (net.site n).receiveBroadcast net.view payload
    let (i, w) := s.interpreter.settle (Wires.link n.label n.endpoint) (net.wires n)
    (.dispatched result, (net.put index n { s with interpreter := i } w).keep index remarks,
      observations n.interpreter.peer remarks w)
  | .receiveUnicast sender payload =>
    let (result, s, remarks) := (net.site n).receiveUnicast sender payload
    let (i, w) := s.interpreter.settle (Wires.link n.label n.endpoint) (net.wires n)
    (.dispatched result, (net.put index n { s with interpreter := i } w).keep index remarks,
      observations n.interpreter.peer remarks w)
  | .run =>
    let s := net.site n
    let (result, i, w) := s.interpreter.run (Wires.link n.label n.endpoint) (net.wires n)
    match result with
    | .error e => (.refused e, net.put index n { s with interpreter := i } w, w.seen)
    | .ok () =>
      (.done, net.put index { n with handle := .held } { s with interpreter := i } w, w.seen)
  | .stop =>
    if n.handle = .held then
      (.had true,
        net.setNode index { n with handle := .absent, interpreter := n.interpreter.stop }, [])
    else (.had false, net, [])
  | .await =>
    (.done, if n.handle = .held then net.setNode index { n with handle := .awaited } else net, [])
  | .deliver channel =>
    let (d, net, seen) := net.deliver index n channel
    (.delivered d, net, seen)
  | .emit event =>
    let (s, remarks) := (net.site n).emit event
    let w := net.wires n
    (.done, net.put index n s w, observations n.interpreter.peer remarks w)

/-- Nothing happens if no peer has the label, or one that was dropped and can no longer do this. -/
def step (net : Network) (label : String) (a : Action) :
    Option (Reply × Network × List Observation) :=
  match net.node? label with
  | none => none
  | some index =>
    match net.nodes[index]? with
    | none => none
    | some n => if n.dropped && !a.concernsPump then none else some (net.act index n a)

def emitKept (net : Network) (slot : String) (job : Option JobId) (key : String) (v : Val) :
    Option (Bool × Network × List Observation) :=
  match net.kept.get? slot with
  | none => none
  | some k =>
    match net.nodes[k.node]? with
    | none => none
    | some n =>
      let (queued, i) := n.interpreter.emit k.emitter (job.getD k.job) key v
      let (i, w) := i.settle (Wires.link n.label n.endpoint) (net.wires n)
      some (queued, net.put k.node n { net.site n with interpreter := i } w, w.seen)

def deliverTimes (net : Network) (label : String) (channel : Channel) :
    Nat → Option (List Delivered × Network × List Observation)
  | 0 => some ([], net, [])
  | n + 1 =>
    match net.step label (.deliver channel) with
    | some (.delivered d, net, seen) =>
      (deliverTimes net label channel n).map fun (ds, net, more) => (d :: ds, net, seen ++ more)
    | _ => none

/-- One delivery on both channels of every peer, in the order in which the peers were added. Counts
the messages. -/
def round (net : Network) : Nat × Network × List Observation :=
  net.labels.foldl
    (fun (count, net, seen) l =>
      [Channel.broadcast, .unicast].foldl
        (fun (count, net, seen) channel =>
          match net.step l.1 (.deliver channel) with
          | some (.delivered .message, net, more) => (count + 1, net, seen ++ more)
          | some (_, net, more) => (count, net, seen ++ more)
          | none => (count, net, seen))
        (count, net, seen))
    (0, net, [])

/-- Rounds until one delivers no message, but at most `fuel` of them. Counts the messages. -/
def deliverAll : Nat → Network → Nat × Network × List Observation
  | 0, net => (0, net, [])
  | fuel + 1, net =>
    match net.round with
    | (0, net, seen) => (0, net, seen)
    | (count, net, seen) =>
      let (more, net, later) := deliverAll fuel net
      (count + more, net, seen ++ later)

end Network

end PeerMesh
