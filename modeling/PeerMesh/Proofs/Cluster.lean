import PeerMesh.Proofs.Interpreter.Reductions
import PeerMesh.Proofs.Interpreter.Mappings
import PeerMesh.Proofs.Mesh.Operations

namespace PeerMesh

def Mesh.link (ep : Nat) : Link Mesh where
  broadcast payload token w := w.broadcast ep payload token
  unicast payload target w := w.unicast ep target payload

/-- What was done at a site. Of the service of a payload, the site and the neighbours are kept as
they were then. -/
inductive Deed (ν : Type)
  | called (c : Command)
  | reducing (m : MapReduce)
  | forwarded (c : Command) (sent : Bool)
  | served (view : View) (s : Site ν) (payload : Bytes)
  | noted (log : List (Remark ν))

namespace Deed

variable {ν : Type}

def sent? : Deed ν → Option Command
  | called c => some c
  | forwarded c sent => if sent then some c else none
  | _ => none

def gone? : Deed ν → Option Command
  | forwarded c _ => some c
  | _ => none

def served? : Deed ν → Option Bytes
  | served _ _ payload => some payload
  | _ => none

def remarks : Deed ν → List (Remark ν)
  | served view s payload => (s.receiveBroadcast view payload).2.2
  | noted log => log
  | _ => []

end Deed

/-- What a site can be made to do. Its pump is started once; then it serves what arrives and
forwards what waits in the outbox, one by one. -/
inductive Task (ν : Type)
  | broadcast (name : String) (args : List Val)
  | unicast (target : PeerId) (name : String) (args : List Val)
  | custom (key mapper : String) (shape : ResponseShape)
  | mapReduce (key mapper : String) (shape : ResponseShape) (reducer : Reducer ν)
  | start
  | serve
  | serveUnicast
  | forward
  | emit (emitter : Nat) (job : JobId) (key : String) (v : Val)
  | use (op : Hub.Op ν)
  | put (store : Store)

def Pump.isRunning : Pump → Bool
  | running .. => true
  | _ => false

namespace Task

variable {ν : Type}

def calls {α : Type} (c : α → Command) : Except CallError α → List (Deed ν)
  | .ok a => [.called (c a)]
  | .error _ => []

def perform (k : Nat) : Task ν → Site ν → Mesh → List (Deed ν) × Site ν × Mesh
  | broadcast name args, s, w =>
    let (r, i, w) := s.interpreter.executeBroadcast (Mesh.link k) name args w
    (calls Sent.command r, { s with interpreter := i }, w)
  | unicast target name args, s, w =>
    let (_, w) := s.interpreter.executeUnicast (Mesh.link k) name args target w
    ([], s, w)
  | custom key mapper shape, s, w =>
    let (r, s, w) := s.executeCustom (Mesh.link k) key mapper shape w
    (calls (fun job => .custom job key mapper shape) r, s, w)
  | mapReduce key mapper shape reducer, s, w =>
    match s.mapReduce (Mesh.link k) key mapper shape reducer w with
    | (.error _, s, w) => ([], s, w)
    | (.ok m, s, w) => ([.called (.custom m.job key mapper shape), .reducing m], s, w)
  | start, s, w =>
    if s.interpreter.pump = .idle then
      ([], { s with interpreter := { s.interpreter with pump := .running true true } }, w)
    else ([], s, w)
  | serve, s, w =>
    if s.interpreter.pump.servesBroadcast then
      match w.receiveBroadcast k with
      | (.item payload, w') =>
        ([.served w.neighbours s payload], (s.receiveBroadcast w.neighbours payload).2.1, w')
      | (.closed, w) =>
        ([], { s with
          interpreter := s.interpreter.setPump s.interpreter.pump.closeBroadcast }, w)
      | (.empty, w) => ([], s, w)
    else ([], s, w)
  | serveUnicast, s, w =>
    if s.interpreter.pump.servesUnicast then
      match w.receiveUnicast k with
      | (.item (sender, payload), w) =>
        let (_, s, log) := s.receiveUnicast sender payload
        ([.noted log], s, w)
      | (.closed, w) =>
        ([], { s with
          interpreter := s.interpreter.setPump s.interpreter.pump.closeUnicast }, w)
      | (.empty, w) => ([], s, w)
    else ([], s, w)
  | forward, s, w =>
    if s.interpreter.pump.isRunning then
      match s.interpreter.outbox with
      | [] => ([], s, w)
      | c :: rest =>
        let (r, i, w) := { s.interpreter with outbox := rest }.sendBroadcast (Mesh.link k) c w
        ([.forwarded c r.isOk], { s with interpreter := i }, w)
    else ([], s, w)
  | emit emitter job key v, s, w =>
    match s.interpreter.emitters[emitter]? with
    | none => ([], s, w)
    | some _ =>
      let (queued, i) := s.interpreter.emit emitter job key v
      ([.noted [.emitted emitter job key v queued]], { s with interpreter := i }, w)
  | use op, s, w =>
    let (hub, log) := op.perform s.hub
    ([.noted (log.map .moment)], { s with hub := hub }, w)
  | put store, s, w => ([], { s with store := store }, w)

end Task

/-- A peer that joins: its clock is the default one, and its job identifiers have a stem. In its hub
emissions may be nested `depth` deep. -/
structure Newcomer where
  peer : PeerId
  stem : String
  protocol : String
  maxPayload : Nat
  registry : Registry
  mappers : Mappers
  membership : Option Membership
  store : Store
  depth : Nat

namespace Newcomer

def settings (n : Newcomer) : Settings where
  peer := n.peer
  jobIds := .ofStem n.stem
  protocol := n.protocol
  maxPayload := n.maxPayload
  registry := n.registry
  mappers := n.mappers
  membership := n.membership

def interpreter (n : Newcomer) : Interpreter where
  peer := n.peer
  protocol := n.protocol
  registry := n.registry
  mappers := n.mappers
  maxPayload := n.maxPayload
  clock := .ofOwner n.peer
  jobIds := .ofStem n.stem
  pump := .idle
  outbox := []
  emitters := []

def site {ν : Type} (n : Newcomer) : Site ν :=
  ⟨n.interpreter, n.store.installDefaults n.membership, .empty n.depth⟩

theorem build_settings (n : Newcomer) :
    Interpreter.build n.settings n.store =
      .ok (n.interpreter, n.store.installDefaults n.membership) :=
  rfl

end Newcomer

/-- The site of an endpoint has the same place as the endpoint. -/
structure Cluster (ν : Type) where
  mesh : Mesh
  sites : List (Site ν)

abbrev Trace (ν : Type) :=
  List (Nat × Deed ν)

inductive Move (ν : Type)
  | join (n : Newcomer)
  | leave (p : PeerId)
  | task (k : Nat) (t : Task ν)

namespace Cluster

variable {ν : Type}

def empty : Cluster ν :=
  ⟨.empty, []⟩

def perform (c : Cluster ν) : Move ν → Trace ν × Cluster ν
  | .join n =>
    match Interpreter.build n.settings n.store with
    | .error _ => ([], c)
    | .ok (i, store) =>
      ([], ⟨(c.mesh.join n.peer).2, c.sites ++ [⟨i, store, .empty n.depth⟩]⟩)
  | .leave p => ([], { c with mesh := c.mesh.leave p })
  | .task k t =>
    match c.sites[k]? with
    | none => ([], c)
    | some s =>
      let (deeds, s, w) := t.perform k s c.mesh
      (deeds.map fun d => (k, d), ⟨w, c.sites.set k s⟩)

theorem perform_join (c : Cluster ν) (n : Newcomer) :
    c.perform (.join n) = ([], ⟨(c.mesh.join n.peer).2, c.sites ++ [n.site]⟩) := by
  rw [perform, n.build_settings]
  rfl

def run (c : Cluster ν) : List (Move ν) → Trace ν × Cluster ν
  | [] => ([], c)
  | m :: moves =>
    let (trace, c) := c.perform m
    let (more, c) := c.run moves
    (trace ++ more, c)

end Cluster

end PeerMesh
