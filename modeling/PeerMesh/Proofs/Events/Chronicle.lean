import PeerMesh.Proofs.Events.Numbering

namespace PeerMesh

/-- What happens in a hub. An emission is known by its place in the history. -/
inductive Happening (ν : Type)
  | subscribed (id : Nat) (kind : EventKind)
  | ended (id : Nat)
  | detached (id : Nat)
  /-- So many listeners are counted at this time. -/
  | counted (n : Nat)
  | began (event : Event)
  | called (emission listener : Nat) (event : Event)
  | noted (what : ν)
  | finished (emission : Nat)
  /-- An emission inside of too many others reaches nobody. -/
  | refused (event : Event)

variable {ν : Type}

namespace Happening

def moment? : Happening ν → Option (Moment ν)
  | called _ listener event => some (.called listener event)
  | noted what => some (.noted what)
  | _ => none

def call? (emission : Nat) : Happening ν → Option (Nat × Event)
  | called n listener event => if n = emission then some (listener, event) else none
  | _ => none

def isBegan : Happening ν → Bool
  | began _ => true
  | _ => false

def isFinished : Happening ν → Bool
  | finished _ => true
  | _ => false

def update (subscriptions : List (Nat × EventKind)) : Happening ν → List (Nat × EventKind)
  | subscribed id kind => subscriptions ++ [(id, kind)]
  | ended id => subscriptions.filter fun s => s.1 ≠ id
  | _ => subscriptions

end Happening

/-- The subscriptions that have started and not ended, in the order of their start. -/
def live (past : List (Happening ν)) : List (Nat × EventKind) :=
  past.foldl Happening.update []

/-- The numbers of the live subscriptions to a kind of event. -/
def addressees (past : List (Happening ν)) (kind : EventKind) : List Nat :=
  ((live past).filter fun s => s.2 = kind).map (·.1)

/-- The calls that an emission makes. -/
def callsOf (emission : Nat) (log : List (Happening ν)) : List (Nat × Event) :=
  log.filterMap (Happening.call? emission)

/-- `depth` emissions have begun and not finished. -/
def Nested (depth : Nat) (past : List (Happening ν)) : Prop :=
  past.countP Happening.isBegan = past.countP Happening.isFinished + depth

/-- What a listener does when it is called. That may depend on all that happened before, and not on
the event alone. -/
abbrev Conduct (ν : Type) :=
  List (Happening ν) → Registered ν → Event → Reaction ν

def Conduct.own : Conduct ν :=
  fun _ l event => l.listener event

structure Chronicle (ν : Type) where
  hub : Hub ν
  past : List (Happening ν)

namespace Chronicle

def empty (depth : Nat) : Chronicle ν :=
  ⟨.empty depth, []⟩

def add (c : Chronicle ν) (x : Happening ν) : Chronicle ν :=
  { c with past := c.past ++ [x] }

def count (c : Chronicle ν) : Chronicle ν :=
  c.add (.counted c.hub.count)

def release (c : Chronicle ν) (name : String) : Chronicle ν :=
  match c.hub.held.get? name with
  | none => c
  | some s => count ⟨c.hub.release name, c.past ++ [.ended s.id]⟩

def subscribe (c : Chronicle ν) (name : String) (kind : EventKind) (hub : Hub ν) : Chronicle ν :=
  let c' : Chronicle ν := count ⟨hub, c.past ++ [.subscribed c.hub.next kind]⟩
  ⟨hub.hold name ⟨c.hub.next⟩, (c'.release name).past⟩

def listen (c : Chronicle ν) (name : String) (kind : EventKind) (listener : Listener ν) :
    Chronicle ν :=
  c.subscribe name kind (c.hub.on kind listener).2

def channel (c : Chronicle ν) (name : String) (kind : EventKind) : Chronicle ν :=
  c.subscribe name kind (c.hub.channel kind).2

def detach (c : Chronicle ν) (name : String) : Chronicle ν :=
  ⟨c.hub.detach name, c.past ++ (c.hub.held.get? name).toList.map fun s => .detached s.id⟩

end Chronicle

def Reaction.chronicle (emit : Chronicle ν → Event → Chronicle ν) :
    Reaction ν → Chronicle ν → Chronicle ν
  | done, c => c
  | panic, c => c
  | note what next, c => next.chronicle emit (c.add (.noted what))
  | post mailbox event next, c => next.chronicle emit { c with hub := c.hub.post mailbox event }
  | cancel name next, c => next.chronicle emit (c.release name)
  | listen name kind listener next, c => next.chronicle emit (c.listen name kind listener)
  | .emit event next, c => next.chronicle emit (emit c event)

namespace Chronicle

/-- The history of an emission, inside of which others may be nested `depth` deep. -/
def emitWithin (conduct : Conduct ν) : Nat → Chronicle ν → Event → Chronicle ν
  | 0, c, event => c.add (.refused event)
  | depth + 1, c, event =>
    let start := c.add (.began event)
    let last := (c.hub.listening event.kind).foldl
      (fun d l =>
        (conduct d.past l event).chronicle (emitWithin conduct depth)
          (d.count.add (.called c.past.length l.id event)))
      start
    last.add (.finished c.past.length)

end Chronicle

/-- What can be done with a hub by those who hold subscriptions, each under a name of its own. -/
inductive Hub.Use (ν : Type)
  | on (name : String) (kind : EventKind) (listener : Listener ν)
  | channel (name : String) (kind : EventKind)
  | cancel (name : String)
  | detach (name : String)
  | emit (event : Event)

namespace Hub.Use

def perform : Use ν → Hub ν → Hub ν × List (Moment ν)
  | on name kind listener, h => (h.listen name kind listener, [])
  | channel name kind, h =>
    let (s, h) := h.channel kind
    (h.hold name s, [])
  | cancel name, h => (h.release name, [])
  | detach name, h => (h.detach name, [])
  | emit event, h => h.emit event

def run : List (Use ν) → Hub ν → Hub ν × List (Moment ν)
  | [], h => (h, [])
  | u :: uses, h =>
    let (h, log) := u.perform h
    let (h, more) := run uses h
    (h, log ++ more)

def chronicle (conduct : Conduct ν) : Use ν → Chronicle ν → Chronicle ν
  | on name kind listener, c => c.listen name kind listener
  | channel name kind, c => c.channel name kind
  | cancel name, c => c.release name
  | detach name, c => c.detach name
  | emit event, c => c.emitWithin conduct (c.hub.depth + 1) event

end Hub.Use

def chronicle (depth : Nat) (conduct : Conduct ν) (uses : List (Hub.Use ν)) : Chronicle ν :=
  uses.foldl (fun c u => u.chronicle conduct c) (.empty depth)

/-- The history is that of a run which ends with this hub after showing this log. -/
structure Chronicle.Records (c : Chronicle ν) (h : Hub ν) (log : List (Moment ν)) : Prop where
  hub : c.hub = h
  log : c.past.filterMap Happening.moment? = log

namespace Chronicle.Records

variable {c : Chronicle ν} {h : Hub ν} {log : List (Moment ν)}

theorem empty (depth : Nat) : (Chronicle.empty depth : Chronicle ν).Records (.empty depth) [] :=
  ⟨rfl, rfl⟩

theorem add (hc : c.Records h log) (x : Happening ν) :
    (c.add x).Records h (log ++ x.moment?.toList) where
  hub := hc.hub
  log := by
    rw [Chronicle.add, List.filterMap_append, hc.log]
    cases hx : x.moment? with
    | none => rw [List.filterMap_cons_none hx]; rfl
    | some m => rw [List.filterMap_cons_some hx]; rfl

theorem unseen (hc : c.Records h log) {x : Happening ν} (hx : x.moment? = none) :
    (c.add x).Records h log := by
  have ha := hc.add x
  rw [hx, Option.toList_none, List.append_nil] at ha
  exact ha

theorem count (hc : c.Records h log) : c.count.Records h log :=
  hc.unseen rfl

theorem release (hc : c.Records h log) (name : String) :
    (c.release name).Records (h.release name) log := by
  rw [Chronicle.release]
  cases hn : c.hub.held.get? name with
  | none =>
    refine ⟨?_, hc.log⟩
    rw [← hc.hub, Hub.release, hn]
  | some s =>
    have he :
        Chronicle.Records ⟨c.hub.release name, c.past ++ [.ended s.id]⟩ (h.release name) log :=
      ⟨congrArg (·.release name) hc.hub, (hc.unseen (x := .ended s.id) rfl).log⟩
    exact he.count

theorem subscribe (hc : c.Records h log) (name : String) (kind : EventKind) (hub : Hub ν) :
    (c.subscribe name kind hub).Records (hub.hold name ⟨h.next⟩) log := by
  have hs : Chronicle.Records ⟨hub, c.past ++ [.subscribed c.hub.next kind]⟩ hub log :=
    ⟨rfl, (hc.unseen (x := .subscribed c.hub.next kind) rfl).log⟩
  refine ⟨?_, (hs.count.release name).log⟩
  rw [Chronicle.subscribe, hc.hub]

theorem listen (hc : c.Records h log) (name : String) (kind : EventKind) (listener : Listener ν) :
    (c.listen name kind listener).Records (h.listen name kind listener) log := by
  have hs := hc.subscribe name kind (c.hub.on kind listener).2
  rw [hc.hub] at hs
  rw [Chronicle.listen, hc.hub]
  exact hs

theorem channel (hc : c.Records h log) (name : String) (kind : EventKind) :
    (c.channel name kind).Records ((h.channel kind).2.hold name (h.channel kind).1) log := by
  have hs := hc.subscribe name kind (c.hub.channel kind).2
  rw [hc.hub] at hs
  rw [Chronicle.channel, hc.hub]
  exact hs

theorem detach (hc : c.Records h log) (name : String) :
    (c.detach name).Records (h.detach name) log where
  hub := congrArg (·.detach name) hc.hub
  log := by
    have hnone : ((c.hub.held.get? name).toList.map fun s =>
        Happening.detached (ν := ν) s.id).filterMap Happening.moment? = [] := by
      cases c.hub.held.get? name <;> rfl
    rw [Chronicle.detach, List.filterMap_append, hnone, List.append_nil, hc.log]

theorem reaction {emit : Chronicle ν → Event → Chronicle ν}
    {emit' : Hub ν → Event → Hub ν × List (Moment ν)}
    (hemit : ∀ {c : Chronicle ν} {h : Hub ν} {log : List (Moment ν)} (e : Event),
      c.Records h log → (emit c e).Records (emit' h e).1 (log ++ (emit' h e).2))
    (r : Reaction ν) (hc : c.Records h log) :
    (r.chronicle emit c).Records (r.run emit' h).1 (log ++ (r.run emit' h).2) := by
  induction r generalizing c h log with
  | done | panic =>
    rw [Reaction.chronicle, Reaction.run, List.append_nil]
    exact hc
  | note what next ih =>
    have hn := ih (hc.add (.noted what))
    rw [List.append_assoc] at hn
    exact hn
  | post mailbox e next ih => exact ih ⟨congrArg (·.post mailbox e) hc.hub, hc.log⟩
  | cancel name next ih => exact ih (hc.release name)
  | listen name kind listener next _ ih => exact ih (hc.listen name kind listener)
  | emit e next ih =>
    have hn := ih (hemit e hc)
    rw [List.append_assoc] at hn
    exact hn

theorem calls {emit : Chronicle ν → Event → Chronicle ν}
    {emit' : Hub ν → Event → Hub ν × List (Moment ν)}
    (hemit : ∀ {c : Chronicle ν} {h : Hub ν} {log : List (Moment ν)} (e : Event),
      c.Records h log → (emit c e).Records (emit' h e).1 (log ++ (emit' h e).2))
    (n : Nat) (e : Event) (ls : List (Registered ν)) {past more : List (Moment ν)}
    (hlog : log = past ++ more) (hc : c.Records h log) :
    let last := ls.foldl
      (fun (h, log) l =>
        let (h, more) := (l.listener e).run emit' h
        (h, log ++ .called l.id e :: more))
      (h, more)
    (ls.foldl
      (fun d l => (Conduct.own d.past l e).chronicle emit (d.count.add (.called n l.id e)))
      c).Records last.1 (past ++ last.2) := by
  induction ls generalizing c h log more with
  | nil =>
    subst hlog
    exact hc
  | cons l ls ih =>
    have hcall := (hc.count.add (.called n l.id e)).reaction hemit (l.listener e)
    refine ih ?_ hcall
    rw [hlog, List.append_assoc, List.append_assoc]
    rfl

theorem emitWithin (depth : Nat) (e : Event) (hc : c.Records h log) :
    (c.emitWithin .own depth e).Records (h.emitWithin depth e).1
      (log ++ (h.emitWithin depth e).2) := by
  induction depth generalizing c h log e with
  | zero =>
    rw [Hub.emitWithin, List.append_nil]
    exact hc.unseen rfl
  | succ depth ih =>
    have hstart := hc.unseen (x := .began e) rfl
    have hcalls := hstart.calls (fun e hc => ih e hc) c.past.length e (h.listening e.kind)
      (List.append_nil log).symm
    rw [Chronicle.emitWithin, Hub.emitWithin, hc.hub]
    exact hcalls.unseen rfl

theorem use (u : Hub.Use ν) (hc : c.Records h log) :
    (u.chronicle .own c).Records (u.perform h).1 (log ++ (u.perform h).2) := by
  cases u with
  | on name kind listener =>
    rw [Hub.Use.perform, List.append_nil]
    exact hc.listen name kind listener
  | channel name kind =>
    rw [Hub.Use.perform]
    dsimp only
    rw [List.append_nil]
    exact hc.channel name kind
  | cancel name =>
    rw [Hub.Use.perform, List.append_nil]
    exact hc.release name
  | detach name =>
    rw [Hub.Use.perform, List.append_nil]
    exact hc.detach name
  | emit e =>
    rw [Hub.Use.chronicle, hc.hub]
    exact hc.emitWithin (h.depth + 1) e

theorem uses (uses : List (Hub.Use ν)) (hc : c.Records h log) :
    (uses.foldl (fun c u => u.chronicle .own c) c).Records (Hub.Use.run uses h).1
      (log ++ (Hub.Use.run uses h).2) := by
  induction uses generalizing c h log with
  | nil =>
    rw [Hub.Use.run, List.append_nil]
    exact hc
  | cons u uses ih =>
    have hrest := ih (hc.use u)
    rw [List.append_assoc] at hrest
    exact hrest

end Chronicle.Records

end PeerMesh
