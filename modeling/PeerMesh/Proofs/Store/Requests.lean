import PeerMesh.Proofs.Interpreter.Jobs

namespace PeerMesh

/-- A recipe may come with cells of its own, which are known to it by the place of the first. -/
inductive Request
  | installDefaults (membership : Option Membership)
  | insert (key : String) (v : Val)
  | insertRecipe (key : String) (cells : List Val) (r : Nat → Recipe)
  | remove (key : String)
  | get (key : String)
  | resolve (view : View) (key : String)
  | recordJob (job : JobId) (key : String)

inductive Answer
  | done
  | entry (e? : Option Entry)
  | value (result : Except String (Option Val))

namespace Request

def perform : Request → Store → Answer × Store
  | installDefaults membership, s => (.done, s.installDefaults membership)
  | insert key v, s => (.done, s.insert key (.value v))
  | insertRecipe key cells r, s =>
    let t := cells.foldl (fun s v => (s.allocate v).2) s
    (.done, t.insert key (.recipe (r s.cells.length)))
  | remove key, s => (.entry (s.get? key), s.remove key)
  | get key, s => (.entry (s.get? key), s)
  | resolve view key, s =>
    let (result, s) := s.resolve view key
    (.value result, s)
  | recordJob job key, s => (.done, s.recordJob job key)

end Request

namespace Store

def fillingEdits (s : Store) (key : String) (e : Entry) : List Edit :=
  match s.get? key with
  | none => [.insert key e]
  | some _ => []

def recordingEdits (s : Store) (job : JobId) (key : String) : List Edit :=
  match s.get? jobsKey with
  | none => [.insert jobsKey (.value (.map [(job.id, .string key)]))]
  | some (.value (.map jobs)) =>
    [.insert jobsKey (.value (.map (Fields.insert job.id (.string key) jobs)))]
  | some _ => []

end Store

namespace Request

/-- What is written. When a key is resolved, that is what the recipe under it writes. -/
def edits : Request → Store → List Edit
  | installDefaults membership, s =>
    s.fillingEdits Store.viewsKey (.recipe (Membership.recipe membership)) ++
      s.fillingEdits Store.jobsKey (.value (.map []))
  | insert key v, _ => [.insert key (.value v)]
  | insertRecipe key cells r, s =>
    cells.map .allocate ++ [.insert key (.recipe (r s.cells.length))]
  | remove key, _ => [.remove key]
  | get _, _ => []
  | resolve view key, s => s.edits view key
  | recordJob job key, s => s.recordingEdits job key

end Request

namespace Store

variable (s : Store)

theorem insertIfAbsent_edited (key : String) (e : Entry) :
    s.insertIfAbsent key e = s.edited (s.fillingEdits key e) := by
  rw [insertIfAbsent, fillingEdits]
  cases s.get? key <;> rfl

theorem get?_insertIfAbsent (key : String) (e : Entry) (k : String) :
    (s.insertIfAbsent key e).get? k = (s.get? k).or (if k = key then some e else none) := by
  rw [insertIfAbsent]
  cases hkey : s.get? key with
  | none =>
    dsimp only
    rw [get?_insert]
    by_cases hk : k = key
    · rw [if_pos hk, if_pos hk, hk, hkey]
      rfl
    · rw [if_neg hk, if_neg hk, Option.or_none]
  | some old =>
    dsimp only
    by_cases hk : k = key
    · rw [hk, hkey]
      rfl
    · rw [if_neg hk, Option.or_none]

/-- What a store has under a key by default. -/
def default? (membership : Option Membership) (key : String) : Option Entry :=
  if key = viewsKey then some (.recipe (Membership.recipe membership))
  else if key = jobsKey then some (.value (.map []))
  else none

theorem get?_installDefaults (membership : Option Membership) (key : String) :
    (s.installDefaults membership).get? key = (s.get? key).or (default? membership key) := by
  rw [installDefaults, get?_insertIfAbsent, get?_insertIfAbsent, Option.or_assoc, default?]
  congr 1
  by_cases hkey : key = viewsKey
  · rw [if_pos hkey, if_pos hkey]
    rfl
  · rw [if_neg hkey, if_neg hkey]
    rfl

theorem insertIfAbsent_of_some {key : String} {old : Entry} (h : s.get? key = some old)
    (e : Entry) : s.insertIfAbsent key e = s := by
  rw [insertIfAbsent, h]

theorem installDefaults_again (membership other : Option Membership) :
    (s.installDefaults membership).installDefaults other = s.installDefaults membership := by
  have hpresent : ∀ key, default? membership key ≠ none →
      ∃ e, (s.installDefaults membership).get? key = some e := by
    intro key hkey
    rw [get?_installDefaults]
    cases s.get? key with
    | none => exact Option.ne_none_iff_exists'.mp hkey
    | some e => exact ⟨e, rfl⟩
  obtain ⟨views, hviews⟩ := hpresent viewsKey (by simp [default?])
  obtain ⟨jobs, hjobs⟩ := hpresent jobsKey (by simp [default?, viewsKey, jobsKey])
  rw [installDefaults, insertIfAbsent_of_some _ hviews, insertIfAbsent_of_some _ hjobs]

theorem installDefaults_edited (membership : Option Membership) :
    s.installDefaults membership = s.edited ((Request.installDefaults membership).edits s) := by
  have hjobs : ∀ e, (s.insertIfAbsent viewsKey e).get? jobsKey = s.get? jobsKey := by
    intro e
    rw [get?_insertIfAbsent, if_neg (by decide), Option.or_none]
  rw [installDefaults, Request.edits, edited_append, ← insertIfAbsent_edited,
    insertIfAbsent_edited, fillingEdits, hjobs]
  rfl

/-- The view of a mesh that was installed stays there, as long as nobody writes under its key. -/
theorem resolve_views {s : Store} {p : PeerId} {edits : List Edit}
    (habsent : s.get? viewsKey = none) (hedits : ∀ e ∈ edits, e.key? ≠ some viewsKey)
    (view : View) :
    let t := (s.installDefaults (some (.mesh p))).edited edits
    t.resolve view viewsKey = (.ok (some (peersVal (view p))), t) := by
  intro t
  have hviews : t.get? viewsKey = some (.recipe (Membership.recipe (some (.mesh p)))) := by
    rw [get?_edited_of_ne hedits, get?_installDefaults, habsent]
    simp [default?]
  rw [resolve, hviews]
  rfl

theorem recordJob_edited (job : JobId) (key : String) :
    s.recordJob job key = s.edited (s.recordingEdits job key) := by
  rw [recordJob, recordingEdits]
  rcases s.get? jobsKey with _ | v | r
  · rfl
  · cases v <;> rfl
  · rfl

theorem recordJob_cases (job : JobId) (key : String) :
    match s.get? jobsKey with
    | none => (s.recordJob job key).get? jobsKey = some (.value (.map [(job.id, .string key)]))
    | some (.value (.map jobs)) =>
      ∃ more, (s.recordJob job key).get? jobsKey = some (.value (.map more)) ∧
        ∀ k, more.lookup k = if k = job.id then some (.string key) else jobs.lookup k
    | some _ => s.recordJob job key = s := by
  split
  · next hnone => simp [recordJob, hnone, get?_insert]
  · next jobs hjobs =>
    exact ⟨_, get?_recordJob hjobs job key, Fields.lookup_insert job.id (.string key) jobs⟩
  · next hother hjobs =>
    rw [recordJob, hjobs]
    split
    · next h => cases h
    · next h =>
      cases h
      exact absurd rfl (hother _)
    · rfl

end Store

/-- All that it comes to when a key is resolved: the answer, the store after it, and what is written
and called meanwhile. -/
structure Resolution where
  result : Except String (Option Val)
  after : Store
  edits : List Edit
  calls : List Invocation

namespace Store

def editsWithin (view : View) (depth : Nat) (key : String) (s : Store) : List Edit :=
  match s.get? key with
  | none => []
  | some e => e.editsWithin view depth s

def invocationsWithin (view : View) (depth : Nat) (key : String) (s : Store) : List Invocation :=
  match s.get? key with
  | none => []
  | some e => e.invocationsWithin view depth key s

def resolution (view : View) (depth : Nat) (key : String) (s : Store) : Resolution where
  result := (s.resolveWithin view depth key).1
  after := (s.resolveWithin view depth key).2
  edits := s.editsWithin view depth key
  calls := s.invocationsWithin view depth key

end Store

/-- A single call of the recipe under a key, with all that the recipe itself writes and calls. -/
def Recipe.resolution (view : View) (depth : Nat) (key : String) (r : Recipe) (s : Store) :
    Resolution :=
  let (result, after) := r.run view (Store.resolveWithin view depth) s
  { result := result.map some
    after := after
    edits := r.edits view (Store.resolveWithin view depth) (Store.editsWithin view depth) s
    calls := .recipe key r ::
      r.invocations view (Store.resolveWithin view depth) (Store.invocationsWithin view depth) s }

namespace Store

variable (view : View) (s : Store) (key : String)

theorem resolution_eq (depth : Nat) :
    s.resolution view (depth + 1) key =
      match s.get? key with
      | none => ⟨.ok none, s, [], []⟩
      | some (.value v) => ⟨.ok (some v), s, [], []⟩
      | some (.recipe r) => r.resolution view depth key s := by
  rw [resolution, resolveWithin, editsWithin, invocationsWithin]
  rcases s.get? key with _ | v | r
  · rfl
  · rfl
  · have hrun : (Entry.recipe r).resolveWithin view (depth + 1) s =
        r.run view (Store.resolveWithin view depth) s := rfl
    simp only [hrun, Recipe.resolution]
    rcases r.run view (Store.resolveWithin view depth) s with ⟨_ | v, t⟩ <;> rfl

end Store

def Entry.tooDeep : String :=
  "recipes nested too deep"

theorem Recipe.deeper {view : View} {depth more : Nat}
    (hkeys : ∀ (key : String) (s : Store),
      (s.resolution view depth key).result ≠ .error Entry.tooDeep →
      s.resolution view more key = s.resolution view depth key)
    (r : Recipe) (s : Store)
    (hr : (r.run view (Store.resolveWithin view depth) s).1 ≠ .error Entry.tooDeep) :
    r.run view (Store.resolveWithin view more) s =
        r.run view (Store.resolveWithin view depth) s ∧
      r.edits view (Store.resolveWithin view more) (Store.editsWithin view more) s =
        r.edits view (Store.resolveWithin view depth) (Store.editsWithin view depth) s ∧
      r.invocations view (Store.resolveWithin view more) (Store.invocationsWithin view more) s =
        r.invocations view (Store.resolveWithin view depth)
          (Store.invocationsWithin view depth) s := by
  induction r generalizing s with
  | done | panic => exact ⟨rfl, rfl, rfl⟩
  | resolve key next ih =>
    have hsame := hkeys key s
    simp only [Store.resolution, Resolution.mk.injEq] at hsame
    simp only [Recipe.run] at hr
    simp only [Recipe.run, Recipe.edits, Recipe.invocations]
    rcases hkey : Store.resolveWithin view depth key s with ⟨text | v, t⟩
    · rw [hkey] at hsame hr
      obtain ⟨hresult, hafter, hedits, hcalls⟩ := hsame fun h => hr (by cases h; rfl)
      rw [Prod.ext hresult hafter, hedits, hcalls]
      exact ⟨rfl, rfl, rfl⟩
    · rw [hkey] at hsame hr
      obtain ⟨hresult, hafter, hedits, hcalls⟩ := hsame (by simp)
      obtain ⟨hrun, hnext, hnextCalls⟩ := ih v t hr
      rw [Prod.ext hresult hafter, hedits, hcalls]
      exact ⟨hrun, congrArg _ hnext, congrArg _ hnextCalls⟩
  | insert key v next ih | insertRecipe key v next _ ih | remove key next ih
  | save cell v next ih =>
    obtain ⟨hrun, hedits, hcalls⟩ := ih _ hr
    exact ⟨hrun, congrArg _ hedits, hcalls⟩
  | load cell next ih | neighbours of next ih => exact ih _ _ hr

/-- Recipes that are not nested too deep do the same however deep they may be nested. -/
theorem Store.resolution_deeper {view : View} {depth : Nat} {key : String} {s : Store}
    (h : (s.resolution view depth key).result ≠ .error Entry.tooDeep) (more : Nat) :
    s.resolution view (depth + more) key = s.resolution view depth key := by
  induction depth generalizing s key with
  | zero =>
    cases more with
    | zero => rfl
    | succ more =>
      rw [Nat.zero_add, resolution_eq]
      rw [resolution, resolveWithin, editsWithin, invocationsWithin] at h ⊢
      generalize s.get? key = e? at h ⊢
      rcases e? with _ | v | r
      · rfl
      · rfl
      · exact absurd rfl h
  | succ depth ih =>
    rw [Nat.add_right_comm, resolution_eq, resolution_eq]
    rw [resolution_eq] at h
    generalize s.get? key = e? at h ⊢
    rcases e? with _ | v | r
    · rfl
    · rfl
    · have hr : (r.run view (resolveWithin view depth) s).1 ≠ .error Entry.tooDeep := by
        intro hdeep
        exact h (congrArg (Except.map some) hdeep)
      obtain ⟨hrun, hedits, hcalls⟩ := Recipe.deeper (fun _ _ => ih) r s hr
      simp only [Recipe.resolution, hrun, hedits, hcalls]

theorem Request.perform_edited (q : Request) (s : Store) :
    (q.perform s).2 = s.edited (q.edits s) := by
  cases q with
  | installDefaults membership => exact s.installDefaults_edited membership
  | insert | remove | get => rfl
  | insertRecipe key cells r =>
    have hcells : s.edited (cells.map .allocate) =
        cells.foldl (fun s v => (s.allocate v).2) s := List.foldl_map
    rw [edits, Store.edited_append, hcells]
    rfl
  | resolve view key => exact s.resolve_edited view key
  | recordJob job key => exact s.recordJob_edited job key

end PeerMesh
