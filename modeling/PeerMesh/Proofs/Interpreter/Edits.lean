import PeerMesh.Proofs.Fields
import PeerMesh.Proofs.Interpreter.Traceless

namespace PeerMesh

inductive Edit
  | insert (key : String) (e : Entry)
  | remove (key : String)
  | save (cell : Nat) (v : Val)
  | allocate (v : Val)

namespace Edit

def apply : Edit → Store → Store
  | insert key e, s => s.insert key e
  | remove key, s => s.remove key
  | save cell v, s => s.save cell v
  | allocate v, s => (s.allocate v).2

def key? : Edit → Option String
  | insert key _ => some key
  | remove key => some key
  | _ => none

end Edit

def Store.edited (s : Store) (edits : List Edit) : Store :=
  edits.foldl (fun s e => e.apply s) s

/-- Keys that the recipe asks for are resolved by `resolve`, which makes the edits that `edits`
tells. -/
def Recipe.edits (view : View)
    (resolve : String → Store → Except String (Option Val) × Store)
    (edits : String → Store → List Edit) : Recipe → Store → List Edit
  | done _, _ => []
  | panic _, _ => []
  | .resolve key next, s =>
    edits key s ++
      match resolve key s with
      | (.ok v, s) => (next v).edits view resolve edits s
      | (.error _, _) => []
  | insert key v next, s =>
    .insert key (.value v) :: next.edits view resolve edits (s.insert key (.value v))
  | insertRecipe key r next, s =>
    .insert key (.recipe r) :: next.edits view resolve edits (s.insert key (.recipe r))
  | remove key next, s => .remove key :: next.edits view resolve edits (s.remove key)
  | load cell next, s => (next (s.load cell)).edits view resolve edits s
  | save cell v next, s => .save cell v :: next.edits view resolve edits (s.save cell v)
  | neighbours of next, s => (next (view of)).edits view resolve edits s

def Entry.editsWithin (view : View) : Nat → Entry → Store → List Edit
  | _, value _, _ => []
  | 0, recipe _, _ => []
  | depth + 1, recipe r, s =>
    r.edits view (Store.resolveWithin view depth)
      (fun key s =>
        match s.get? key with
        | none => []
        | some e => e.editsWithin view depth s)
      s

def Store.edits (view : View) (s : Store) (key : String) : List Edit :=
  match s.get? key with
  | none => []
  | some e => e.editsWithin view (s.depth + 1) s

def Script.edits {ν : Type} (view : View) (emitter : Nat) : Script → Site ν → List Edit
  | done, _ => []
  | fail _, _ => []
  | panic, _ => []
  | emit target key v next, s =>
    let (queued, i) := s.interpreter.emit emitter target key v
    (next queued).edits view emitter { s with interpreter := i }
  | resolve key next, s =>
    s.store.edits view key ++
      match s.store.resolve view key with
      | (.error _, _) => []
      | (.ok v, store) => (next v).edits view emitter { s with store := store }
  | insert key v next, s =>
    .insert key (.value v) ::
      next.edits view emitter { s with store := s.store.insert key (.value v) }
  | insertRecipe key r next, s =>
    .insert key (.recipe r) ::
      next.edits view emitter { s with store := s.store.insert key (.recipe r) }
  | remove key next, s =>
    .remove key :: next.edits view emitter { s with store := s.store.remove key }
  | retain _ next, s => next.edits view emitter s

namespace Site

variable {ν : Type}

def customEdits (view : View) (s : Site ν) (job : JobId) (key mapper : String)
    (shape : ResponseShape) : List Edit :=
  match s.interpreter.mappers.get? mapper with
  | none => []
  | some f =>
    s.store.edits view key ++
      match s.store.resolve view key with
      | (.ok (some v), store) =>
        let (emitter, i) := s.interpreter.newEmitter shape
        (f job ⟨i.peer, i.registry⟩ v).edits view emitter
          { s with store := store, interpreter := i }
      | _ => []

/-- What is edited in the store when a payload is served. -/
def edits (s : Site ν) : Intake → List Edit
  | .broadcast view payload =>
    match s.decode payload with
    | .ok (.custom job key mapper shape) => s.customEdits view job key mapper shape
    | _ => []
  | .unicast .. => []

end Site

namespace Store

variable (s : Store)

@[simp] theorem edited_nil : s.edited [] = s :=
  rfl

@[simp] theorem edited_append (edits more : List Edit) :
    s.edited (edits ++ more) = (s.edited edits).edited more :=
  List.foldl_append

end Store

variable (view : View)

theorem Recipe.run_edited {resolve : String → Store → Except String (Option Val) × Store}
    {edits : String → Store → List Edit}
    (h : ∀ key s, (resolve key s).2 = s.edited (edits key s)) (r : Recipe) (s : Store) :
    (r.run view resolve s).2 = s.edited (r.edits view resolve edits s) := by
  induction r generalizing s with
  | done | panic => rfl
  | resolve key next ih =>
    have hkey := h key s
    rw [run, Recipe.edits, Store.edited_append, ← hkey]
    rcases resolve key s with ⟨_ | v, t⟩
    · rfl
    · exact ih v t
  | insert key v next ih | insertRecipe key r next _ ih | remove key next ih
  | save cell v next ih =>
    exact ih _
  | load cell next ih | neighbours of next ih => exact ih _ s

theorem Entry.resolveWithin_edited (depth : Nat) (e : Entry) (s : Store) :
    (e.resolveWithin view depth s).2 = s.edited (e.editsWithin view depth s) := by
  induction depth generalizing e s with
  | zero => cases e <;> rfl
  | succ depth ih =>
    cases e with
    | value v => rfl
    | recipe r =>
      refine r.run_edited view (fun key s => ?_) s
      cases hg : s.get? key with
      | none => rfl
      | some e =>
        have he := ih e s
        dsimp only
        rw [← he]
        rcases e.resolveWithin view depth s with ⟨_ | v, t⟩ <;> rfl

theorem Store.resolve_edited (s : Store) (key : String) :
    (s.resolve view key).2 = s.edited (s.edits view key) := by
  cases hg : s.get? key with
  | none => simp [resolve, edits, hg]
  | some e =>
    have he : (e.resolve view s).2 = s.edited (e.editsWithin view (s.depth + 1) s) :=
      e.resolveWithin_edited view (s.depth + 1) s
    simp only [resolve, edits, hg, ← he]
    rcases e.resolve view s with ⟨_ | v, t⟩ <;> rfl

theorem Script.run_edited {ν : Type} (emitter : Nat) (job : JobId) (script : Script)
    (s : Site ν) :
    (script.run view emitter job s).2.1.store =
      s.store.edited (script.edits view emitter s) := by
  induction script generalizing s with
  | done | fail | panic => rfl
  | emit target key v next ih => exact ih _ _
  | resolve key next ih =>
    have hkey := s.store.resolve_edited view key
    rw [run, edits, Store.edited_append, ← hkey]
    rcases s.store.resolve view key with ⟨_ | v, store⟩
    · rfl
    · exact ih v _
  | insert key v next ih | insertRecipe key r next ih | remove key next ih => exact ih _
  | retain slot next ih => exact ih s

namespace Site

variable {ν : Type} (s : Site ν)

theorem receiveCustom_edited (job : JobId) (key mapper : String) (shape : ResponseShape) :
    (s.receiveCustom view job key mapper shape).2.1.store =
      s.store.edited (s.customEdits view job key mapper shape) := by
  cases hm : s.interpreter.mappers.get? mapper with
  | none => simp [receiveCustom, customEdits, hm]
  | some f =>
    have hkey := s.store.resolve_edited view key
    simp only [receiveCustom, customEdits, hm, Store.edited_append, ← hkey]
    rcases s.store.resolve view key with ⟨_ | _ | v, store⟩
    · rfl
    · rfl
    · let i := (s.interpreter.newEmitter shape).2
      refine Eq.trans ?_ ((f job ⟨i.peer, i.registry⟩ v).run_edited view
        (s.interpreter.newEmitter shape).1 job ⟨i, store, s.hub⟩)
      dsimp only
      split
      · next h => rw [h]
      · next h => rw [h]
      · next h => rw [h]

theorem serve_edited (x : Intake) : (s.serve x).after.store = s.store.edited (s.edits x) := by
  cases x with
  | broadcast view payload =>
    cases hd : s.decode payload with
    | error e => simp [serve, receiveBroadcast, edits, hd]
    | ok c =>
      cases c with
      | rpc name args | customResponse job value =>
        simp [serve, receiveBroadcast, edits, hd, emit]
      | custom job key mapper shape =>
        have hsite := congrArg Prod.fst (receiveBroadcast_custom view hd)
        have hafter : (s.serve (.broadcast view payload)).after =
          (s.receiveCustom view job key mapper shape).2.1 := hsite
        simp only [hafter, edits, hd, s.receiveCustom_edited]
  | unicast sender payload =>
    cases hd : s.decode payload with
    | error e => simp [serve, receiveUnicast, edits, hd]
    | ok c => cases c <;> simp [serve, receiveUnicast, edits, hd, emit]

end Site

/-- The two stores hold the same but for the entry under one key. -/
structure Store.AgreesOff (key : String) (s t : Store) : Prop where
  entries : ∀ k, k ≠ key → s.get? k = t.get? k
  cells : s.cells = t.cells

namespace Store

theorem get?_insert (s : Store) (key : String) (e : Entry) (k : String) :
    (s.insert key e).get? k = if k = key then some e else s.get? k :=
  s.entries.get?_insert key e k

theorem get?_remove (s : Store) (key k : String) :
    (s.remove key).get? k = if k = key then none else s.get? k :=
  s.entries.get?_erase key k

theorem get?_apply_of_ne {e : Edit} {k : String} (h : e.key? ≠ some k) (s : Store) :
    (e.apply s).get? k = s.get? k := by
  cases e with
  | insert key e =>
    have hne : k ≠ key := fun he => h (he ▸ rfl)
    simp [Edit.apply, get?_insert, hne]
  | remove key =>
    have hne : k ≠ key := fun he => h (he ▸ rfl)
    simp [Edit.apply, get?_remove, hne]
  | save | allocate => rfl

theorem get?_edited_of_ne {edits : List Edit} {k : String} (h : ∀ e ∈ edits, e.key? ≠ some k)
    (s : Store) : (s.edited edits).get? k = s.get? k := by
  induction edits generalizing s with
  | nil => rfl
  | cons e edits ih =>
    have hrest := ih (fun e' he' => h e' (List.mem_cons_of_mem e he')) (e.apply s)
    exact hrest.trans (get?_apply_of_ne (h e List.mem_cons_self) s)

namespace AgreesOff

variable {key : String} {s t : Store}

theorem refl (key : String) (s : Store) : AgreesOff key s s :=
  ⟨fun _ _ => rfl, rfl⟩

theorem trans {u : Store} (h : AgreesOff key s t) (h' : AgreesOff key t u) : AgreesOff key s u :=
  ⟨fun k hk => (h.entries k hk).trans (h'.entries k hk), h.cells.trans h'.cells⟩

theorem apply (h : AgreesOff key s t) (e : Edit) : AgreesOff key (e.apply s) (e.apply t) := by
  refine ⟨fun k hk => ?_, ?_⟩
  · cases e with
    | insert | remove => simp [Edit.apply, get?_insert, get?_remove, h.entries k hk]
    | save | allocate => exact h.entries k hk
  · cases e with
    | insert | remove => exact h.cells
    | save cell v => exact congrArg (·.set cell v) h.cells
    | allocate v => exact congrArg (· ++ [v]) h.cells

end AgreesOff

end Store

end PeerMesh
