import PeerMesh.Interpreter.Inbound

namespace PeerMesh

/-- What is called: the recipe under a key, or the mapper of a name. -/
inductive Invocation
  | recipe (key : String) (r : Recipe)
  | mapper (name : String) (job : JobId) (context : Context) (v : Val)

def Store.resolveWithin (view : View) (depth : Nat) (key : String) (s : Store) :
    Except String (Option Val) × Store :=
  match s.get? key with
  | none => (.ok none, s)
  | some e =>
    match e.resolveWithin view depth s with
    | (.ok v, s) => (.ok (some v), s)
    | (.error text, s) => (.error text, s)

/-- What a recipe calls when it asks for keys. Those are resolved by `resolve`, which makes the
calls that `calls` tells. -/
def Recipe.invocations (view : View)
    (resolve : String → Store → Except String (Option Val) × Store)
    (calls : String → Store → List Invocation) : Recipe → Store → List Invocation
  | done _, _ => []
  | panic _, _ => []
  | .resolve key next, s =>
    calls key s ++
      match resolve key s with
      | (.ok v, s) => (next v).invocations view resolve calls s
      | (.error _, _) => []
  | insert key v next, s => next.invocations view resolve calls (s.insert key (.value v))
  | insertRecipe key r next, s => next.invocations view resolve calls (s.insert key (.recipe r))
  | remove key next, s => next.invocations view resolve calls (s.remove key)
  | load cell next, s => (next (s.load cell)).invocations view resolve calls s
  | save cell v next, s => next.invocations view resolve calls (s.save cell v)
  | neighbours of next, s => (next (view of)).invocations view resolve calls s

def Entry.invocationsWithin (view : View) : Nat → String → Entry → Store → List Invocation
  | _, _, value _, _ => []
  | 0, _, recipe _, _ => []
  | depth + 1, key, recipe r, s =>
    .recipe key r ::
      r.invocations view (Store.resolveWithin view depth)
        (fun key s =>
          match s.get? key with
          | none => []
          | some e => e.invocationsWithin view depth key s)
        s

def Store.invocations (view : View) (s : Store) (key : String) : List Invocation :=
  match s.get? key with
  | none => []
  | some e => e.invocationsWithin view (s.depth + 1) key s

def Script.invocations {ν : Type} (view : View) (emitter : Nat) :
    Script → Site ν → List Invocation
  | done, _ => []
  | fail _, _ => []
  | panic, _ => []
  | emit target key v next, s =>
    let (queued, i) := s.interpreter.emit emitter target key v
    (next queued).invocations view emitter { s with interpreter := i }
  | resolve key next, s =>
    s.store.invocations view key ++
      match s.store.resolve view key with
      | (.error _, _) => []
      | (.ok v, store) => (next v).invocations view emitter { s with store := store }
  | insert key v next, s =>
    next.invocations view emitter { s with store := s.store.insert key (.value v) }
  | insertRecipe key r next, s =>
    next.invocations view emitter { s with store := s.store.insert key (.recipe r) }
  | remove key next, s =>
    next.invocations view emitter { s with store := s.store.remove key }
  | retain _ next, s => next.invocations view emitter s

namespace Site

variable {ν : Type} (view : View) (s : Site ν)

def customInvocations (job : JobId) (key mapper : String) (shape : ResponseShape) :
    List Invocation :=
  match s.interpreter.mappers.get? mapper with
  | none => []
  | some f =>
    s.store.invocations view key ++
      match s.store.resolve view key with
      | (.ok (some v), store) =>
        let (emitter, i) := s.interpreter.newEmitter shape
        let context : Context := ⟨i.peer, i.registry⟩
        .mapper mapper job context v ::
          (f job context v).invocations view emitter { s with store := store, interpreter := i }
      | _ => []

/-- What is called for a payload that came by broadcast. -/
def broadcastInvocations (payload : Bytes) : List Invocation :=
  match s.decode payload with
  | .ok (.custom job key mapper shape) => s.customInvocations view job key mapper shape
  | _ => []

/-- What is called for a payload that came from one peer, to which no neighbours are shown. A custom
command is run unless the result says that commands of its kind are not supported. -/
def unicastInvocations (sender : PeerId) (payload : Bytes) : List Invocation :=
  match s.decode payload, (s.receiveUnicast sender payload).1 with
  | .ok (.custom ..), .error (.unsupported _) => []
  | .ok (.custom job key mapper shape), _ =>
    s.customInvocations (fun _ => []) job key mapper shape
  | _, _ => []

theorem unicastInvocations_eq_nil (sender : PeerId) (payload : Bytes) :
    s.unicastInvocations sender payload = [] := by
  rw [unicastInvocations, receiveUnicast]
  cases s.decode payload with
  | error e => rfl
  | ok c => cases c <;> rfl

end Site

namespace Store

variable {view : View} {s : Store} {key : String}

theorem resolve_of_invocations_nil (h : s.invocations view key = []) :
    (s.resolve view key).2 = s := by
  cases hg : s.get? key with
  | none => simp [resolve, hg]
  | some e =>
    cases e with
    | value v => simp [resolve, hg, Entry.resolve, Entry.resolveWithin]
    | recipe r => simp [invocations, hg, Entry.invocationsWithin] at h

theorem invocations_of_resolve_none (h : (s.resolve view key).1 = .ok none) :
    s.invocations view key = [] := by
  cases hg : s.get? key with
  | none => simp [invocations, hg]
  | some e =>
    rw [resolve, hg] at h
    dsimp only at h
    split at h <;> cases h

end Store

end PeerMesh
