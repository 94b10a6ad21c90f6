import PeerMesh.Command

namespace PeerMesh

inductive EventKind
  | broadcastResult
  | broadcastCustomResult
  | unicastResult
  deriving DecidableEq

namespace EventKind

def name : EventKind → String
  | broadcastResult => "broadcast-result"
  | broadcastCustomResult => "broadcast-custom-result"
  | unicastResult => "unicast-result"

def ofName? (s : String) : Option EventKind :=
  if s = "broadcast-result" then some broadcastResult
  else if s = "broadcast-custom-result" then some broadcastCustomResult
  else if s = "unicast-result" then some unicastResult
  else none

end EventKind

inductive Event
  /-- A call that came by broadcast was run here. -/
  | broadcastResult (result : Outcome) (command : Command)
  /-- A response to a custom command came by broadcast. -/
  | broadcastCustomResult (value : Fields Val) (command : Command)
  /-- A call that `sender` sent to this peer was run here. -/
  | unicastResult (result : Outcome) (sender : PeerId) (command : Command)

def Event.kind : Event → EventKind
  | broadcastResult .. => .broadcastResult
  | broadcastCustomResult .. => .broadcastCustomResult
  | unicastResult .. => .unicastResult

def Event.command : Event → Command
  | broadcastResult _ c => c
  | broadcastCustomResult _ c => c
  | unicastResult _ _ c => c

/-- What a listener does with an event, step by step. It may note something for those who watch it,
put the event into a mailbox, and use the hub: end a subscription that is held under a name, start
one and hold it, or emit an event. -/
inductive Reaction (ν : Type)
  | done
  | panic
  | note (what : ν) (next : Reaction ν)
  | post (mailbox : Nat) (event : Event) (next : Reaction ν)
  | cancel (name : String) (next : Reaction ν)
  | listen (name : String) (kind : EventKind) (listener : Event → Reaction ν) (next : Reaction ν)
  | emit (event : Event) (next : Reaction ν)

abbrev Listener (ν : Type) :=
  Event → Reaction ν

structure Subscription where
  id : Nat
  deriving DecidableEq

structure Registered (ν : Type) where
  id : Nat
  kind : EventKind
  listener : Listener ν

/-- The listeners in the order of their subscriptions, the subscriptions that are held under names,
and the mailboxes that are still open. Inside of an emission others may be nested `depth` deep. -/
structure Hub (ν : Type) where
  listeners : List (Registered ν)
  next : Nat
  held : Dict Subscription
  mailboxes : List (Nat × List Event)
  depth : Nat

inductive Moment (ν : Type)
  | called (listener : Nat) (event : Event)
  | noted (what : ν)

namespace Hub

variable {ν : Type}

/-- Emissions may be nested as deep as one likes; the default is for programs that do not ask. -/
def empty (depth : Nat := 999) : Hub ν :=
  ⟨[], 0, .empty, [], depth⟩

instance : Inhabited (Hub ν) :=
  ⟨empty⟩

def count (h : Hub ν) : Nat :=
  h.listeners.length

def on (h : Hub ν) (kind : EventKind) (listener : Listener ν) : Subscription × Hub ν :=
  (⟨h.next⟩, { h with listeners := h.listeners ++ [⟨h.next, kind, listener⟩], next := h.next + 1 })

def cancel (h : Hub ν) (s : Subscription) : Hub ν :=
  { h with listeners := h.listeners.filter fun l => l.id ≠ s.id }

/-- A subscription that puts the events of a kind into a mailbox of its own. -/
def channel (h : Hub ν) (kind : EventKind) : Subscription × Hub ν :=
  let (s, h) := h.on kind fun e => .post h.next e .done
  (s, { h with mailboxes := h.mailboxes ++ [(s.id, [])] })

def post (h : Hub ν) (mailbox : Nat) (event : Event) : Hub ν :=
  { h with
    mailboxes := h.mailboxes.map fun m => if m.1 = mailbox then (m.1, m.2 ++ [event]) else m }

/-- What is in a mailbox, and whether more can come: its listener is still subscribed. -/
def drain (h : Hub ν) (mailbox : Nat) : (List Event × Bool) × Hub ν :=
  (((h.mailboxes.lookup mailbox).getD [], h.listeners.any fun l => l.id = mailbox),
    { h with mailboxes := h.mailboxes.map fun m => if m.1 = mailbox then (m.1, []) else m })

def closeMailbox (h : Hub ν) (mailbox : Nat) : Hub ν :=
  { h with mailboxes := h.mailboxes.filter fun m => m.1 ≠ mailbox }

def release (h : Hub ν) (name : String) : Hub ν :=
  match h.held.get? name with
  | none => h
  | some s => { h.cancel s with held := h.held.erase name }

/-- Holds a subscription under a name. The one that was held under it ends. -/
def hold (h : Hub ν) (name : String) (s : Subscription) : Hub ν :=
  { h.release name with held := h.held.insert name s }

/-- Lets go of the subscription held under `name`, which then never ends. -/
def detach (h : Hub ν) (name : String) : Hub ν :=
  { h with held := h.held.erase name }

def listen (h : Hub ν) (name : String) (kind : EventKind) (listener : Listener ν) : Hub ν :=
  let (s, h) := h.on kind listener
  h.hold name s

def dropAll (h : Hub ν) : Hub ν :=
  { h with listeners := [] }

def listening (h : Hub ν) (kind : EventKind) : List (Registered ν) :=
  h.listeners.filter fun l => l.kind = kind

end Hub

/-- Runs a reaction, which emits by means of `emit`. A panic ends it and is seen by nobody. -/
def Reaction.run {ν : Type} (emit : Hub ν → Event → Hub ν × List (Moment ν)) :
    Reaction ν → Hub ν → Hub ν × List (Moment ν)
  | done, h => (h, [])
  | panic, h => (h, [])
  | note what next, h =>
    let (h, log) := next.run emit h
    (h, .noted what :: log)
  | post mailbox event next, h => next.run emit (h.post mailbox event)
  | cancel name next, h => next.run emit (h.release name)
  | listen name kind listener next, h => next.run emit (h.listen name kind listener)
  | .emit event next, h =>
    let (h, log) := emit h event
    let (h, more) := next.run emit h
    (h, log ++ more)

namespace Hub

variable {ν : Type}

/-- Calls one after the other the listeners that are subscribed at the start. Emissions by listeners
may be nested `depth` deep; those beyond reach nobody. -/
def emitWithin : Nat → Hub ν → Event → Hub ν × List (Moment ν)
  | 0, h, _ => (h, [])
  | depth + 1, h, event =>
    (h.listening event.kind).foldl
      (fun (h, log) l =>
        let (h, more) := (l.listener event).run (emitWithin depth) h
        (h, log ++ .called l.id event :: more))
      (h, [])

def emit (h : Hub ν) (event : Event) : Hub ν × List (Moment ν) :=
  h.emitWithin (h.depth + 1) event

end Hub

end PeerMesh
