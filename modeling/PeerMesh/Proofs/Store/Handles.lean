import PeerMesh.Proofs.Store.Holdings

namespace PeerMesh

namespace Holdings

theorem kept_isPrefix (d : Act) (w : Holdings) : w.kept <+: (Holdings.perform d w).1.kept := by
  cases d with
  | new | withDefaults => exact List.prefix_rfl
  | clone | resolveKept =>
    rw [perform]
    repeat' split
    all_goals exact List.prefix_rfl
  | ask handle q =>
    rw [perform]
    split
    · exact List.prefix_append _ _
    · exact List.prefix_rfl

theorem kept_isPrefix_run (acts : List Act) (w : Holdings) (past : List Record) :
    w.kept <+: (run acts w past).1.kept := by
  induction acts generalizing w past with
  | nil => exact List.prefix_rfl
  | cons d acts ih => exact (kept_isPrefix d w).trans (ih _ _)

theorem run_append (acts more : List Act) (w : Holdings) (past : List Record) :
    run (acts ++ more) w past = run more (run acts w past).1 (run acts w past).2 :=
  List.foldl_append

def after (depth : Nat) (acts : List Act) : Holdings :=
  (run acts (empty depth) []).1

def historyOf (depth : Nat) (acts : List Act) : List Record :=
  (run acts (empty depth) []).2

theorem tracks (depth : Nat) (acts : List Act) :
    Tracks (after depth acts) (historyOf depth acts) :=
  (Tracks.start depth).run acts

theorem observed (depth : Nat) (acts : List Act) (handle : String) :
    ((after depth acts).stores.store? handle).map Store.get? =
      (storeOf? handle (historyOf depth acts)).map
        fun n key => lastWritten key (editsOf n (historyOf depth acts)) := by
  have h := tracks depth acts
  rw [Stores.store?, h.handles]
  cases hn : storeOf? handle (historyOf depth acts) with
  | none => rfl
  | some n =>
    rw [Option.bind_some, h.stores, if_pos (storeOf?_lt hn), Option.map_some, Option.map_some]
    congr 1
    funext key
    exact (Store.empty _).get?_edited _ key

theorem kept_entry {depth : Nat} {done rest : List Act} {handle key : String} {s : Store}
    {e : Entry} (hs : (after depth done).stores.store? handle = some s) (he : s.get? key = some e) :
    let w := after depth (done ++ .ask handle (.get key) :: rest)
    ∃ i n, storeOf? handle (historyOf depth done) = some n ∧ w.kept[i]? = some (n, e) ∧
      ∀ v, e = .value v → ∀ view,
        perform (.resolveKept i view) w = (w, [.resolvedKept i [] (.ok v)]) := by
  intro w
  obtain ⟨n, hn, hget⟩ := Option.bind_eq_some_iff.mp hs
  have hasked : (perform (.ask handle (.get key)) (after depth done)).1.kept =
      (after depth done).kept ++ [(n, e)] := by
    simp [perform, hn, hs, Request.perform, taken?, he]
  have hw : w = (run rest (perform (.ask handle (.get key)) (after depth done)).1
      ((perform (.ask handle (.get key)) (after depth done)).2 ++ historyOf depth done)).1 :=
    congrArg Prod.fst (run_append done (.ask handle (.get key) :: rest) (empty depth) [])
  have hkept : w.kept[(after depth done).kept.length]? = some (n, e) := by
    have hprefix : (after depth done).kept ++ [(n, e)] <+: w.kept := by
      rw [hw, ← hasked]
      exact kept_isPrefix_run rest _ _
    obtain ⟨more, hmore⟩ := hprefix
    rw [← hmore, List.append_assoc, List.getElem?_append_right (Nat.le_refl _), Nat.sub_self]
    rfl
  refine ⟨_, n, ((tracks depth done).handles handle).symm.trans hn, hkept, ?_⟩
  rintro v rfl view
  obtain ⟨t, ht⟩ : ∃ t, w.stores.stores[n]? = some t := by
    have htracks := tracks depth (done ++ Act.ask handle (.get key) :: rest)
    have htaken : (some n, Entry.value v) ∈ takenFrom (historyOf depth _) :=
      htracks.kept ▸ List.mem_map_of_mem (List.mem_of_getElem? hkept)
    exact ⟨_, (htracks.stores n).trans (if_pos (takenFrom_lt htaken))⟩
  obtain ⟨hlt, rfl⟩ := List.getElem?_eq_some_iff.mp ht
  simp [perform, hkept, ht, Entry.resolve, Entry.resolveWithin, Entry.editsWithin]

/-- The handles on one store are ways to one map, whatever is done through any of them. Entries by
default and jobs are added to that map only where it has room for them. What was taken out is not
changed by what is written later, and the recipe that is called is the one that is there at the
time. -/
theorem single_map (depth : Nat) (acts : List Act) :
    let w := after depth acts
    let past := historyOf depth acts
    -- All handles on one store see what was last written in it, through whichever of them.
    (∀ handle, (w.stores.store? handle).map Store.get? =
      (storeOf? handle past).map fun n key => lastWritten key (editsOf n past)) ∧
    -- Default entries are filled in where there is none.
    (∀ (s : Store) (membership : Option Membership),
      (∀ key, (s.installDefaults membership).get? key =
        (s.get? key).or (Store.default? membership key)) ∧
      ∀ other, (s.installDefaults membership).installDefaults other =
        s.installDefaults membership) ∧
    -- A job is added to the map of jobs, and nothing else is changed.
    (∀ (s : Store) (job : JobId) (key : String),
      (s.recordJob job key).AgreesOff Store.jobsKey s ∧
      match s.get? Store.jobsKey with
      | none =>
        (s.recordJob job key).get? Store.jobsKey =
          some (.value (.map [(job.id, .string key)]))
      | some (.value (.map jobs)) =>
        ∃ more, (s.recordJob job key).get? Store.jobsKey = some (.value (.map more)) ∧
          ∀ k, more.lookup k = if k = job.id then some (.string key) else jobs.lookup k
      | some _ => s.recordJob job key = s) ∧
    -- An entry that was taken out stays what it was.
    (∀ done rest handle key, acts = done ++ .ask handle (.get key) :: rest →
      ∀ s e, (after depth done).stores.store? handle = some s → s.get? key = some e →
        ∃ i n, storeOf? handle (historyOf depth done) = some n ∧ w.kept[i]? = some (n, e) ∧
          ∀ v, e = .value v → ∀ view,
            perform (.resolveKept i view) w = (w, [.resolvedKept i [] (.ok v)])) ∧
    -- Resolving a key calls the recipe that is there, once, and does nothing else. How deep recipes
    -- may be nested makes no difference to those that are not nested deeper.
    ∀ (view : View) (key : String) (s : Store),
      let resolved := s.resolution view (s.depth + 1) key
      s.resolve view key = (resolved.result, resolved.after) ∧
      s.edits view key = resolved.edits ∧
      s.invocations view key = resolved.calls ∧
      ∀ depth,
        (s.resolution view (depth + 1) key =
          match s.get? key with
          | none => ⟨.ok none, s, [], []⟩
          | some (.value v) => ⟨.ok (some v), s, [], []⟩
          | some (.recipe r) => r.resolution view depth key s) ∧
        ((s.resolution view depth key).result ≠ .error Entry.tooDeep →
          ∀ more, s.resolution view (depth + more) key = s.resolution view depth key) := by
  intro w past
  refine ⟨observed depth acts, fun s membership => ?_, fun s job key => ?_, ?_, ?_⟩
  · exact ⟨s.get?_installDefaults membership, s.installDefaults_again membership⟩
  · exact ⟨s.recordJob_agreesOff job key, s.recordJob_cases job key⟩
  · rintro done rest handle key rfl s e hs he
    exact kept_entry hs he
  · intro view key s
    refine ⟨rfl, rfl, rfl, fun depth => ⟨s.resolution_eq view key depth, ?_⟩⟩
    exact Store.resolution_deeper

/-- One of two handles writes what the other one took out before, and a recipe writes when it is
resolved: its second call sees what its first one kept. A third handle is on a store of its own. -/
theorem single_map_counted :
    let counter (cell : Nat) : Recipe :=
      .load cell fun v => .insert "seen" v (.save cell (.bool true) (.done v))
    let view : View := fun _ => []
    let done : List Act :=
      [.withDefaults "a" none, .clone "a" "b", .new "c", .ask "a" (.insert "k" (.string "old"))]
    let rest : List Act :=
      [.ask "a" (.insert "k" (.string "new")), .ask "a" (.insertRecipe "n" [.bool false] counter),
        .ask "b" (.resolve view "n"), .ask "a" (.resolve view "n"), .ask "a" (.remove "k"),
        .ask "c" (.insert "k" .unit)]
    let w := after 0 (done ++ .ask "b" (.get "k") :: rest)
    let shown (entries : String → Option Entry) : Bool × Option Bool :=
      ((entries "k").isSome,
        match entries "seen" with
        | some (.value (.bool b)) => some b
        | _ => none)
    ((w.stores.store? "b").map Store.get?).map shown = some (false, some true) ∧
    ((w.stores.store? "c").map Store.get?).map shown = some (true, none) ∧
    ∃ i, w.kept[i]? = some (0, .value (.string "old")) ∧
      perform (.resolveKept i view) w = (w, [.resolvedKept i [] (.ok (.string "old"))]) := by
  intro counter view done rest w shown
  obtain ⟨hmap, -, -, hkept, -⟩ := single_map 0 (done ++ .ask "b" (.get "k") :: rest)
  obtain ⟨i, n, hn, hi, hresolve⟩ :=
    hkept done rest "b" "k" rfl _ (.value (.string "old")) rfl rfl
  cases hn
  refine ⟨(congrArg _ (hmap "b")).trans ?_, (congrArg _ (hmap "c")).trans ?_, i, hi,
    hresolve _ rfl view⟩
  all_goals
    clear hmap hkept hi hresolve
    decide +kernel +revert

end Holdings

end PeerMesh
