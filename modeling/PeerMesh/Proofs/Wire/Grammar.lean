import PeerMesh.Proofs.Wire.CommandGrammar

namespace PeerMesh

open Json (only? Counts Keeps)

namespace CommandKind

variable (kind : CommandKind) (items : List Json)

theorem nodup_members : ((kind.members items).map (·.1)).Nodup := by
  have hnames : (kind.fieldNames.zip items).map Prod.fst =
      kind.fieldNames.take (min kind.fieldNames.length items.length) := by
    rw [List.zip_eq_zip_take_min, List.map_fst_zip (by simp)]
  have hn : ("kind" :: kind.fieldNames).Nodup := by
    cases kind <;> decide
  rw [members, List.map_cons, hnames]
  exact hn.sublist ((List.take_sublist _ _).cons_cons "kind")

theorem ofItems?_eq_ofMembers? (h : items.length ≤ kind.fieldNames.length) :
    Command.ofItems? kind items = Command.ofMembers? kind (kind.members items) := by
  -- one case for every number of fields, and one for an item too many
  cases kind with
  | rpc =>
    rcases items with _ | ⟨_, _ | ⟨_, _ | ⟨_, items⟩⟩⟩
    case cons.cons.cons => exact absurd h (by simp [fieldNames])
    all_goals simp [Command.ofItems?, Command.ofMembers?, members, fieldNames, only?]
  | custom =>
    rcases items with _ | ⟨_, _ | ⟨_, _ | ⟨_, _ | ⟨_, _ | ⟨_, items⟩⟩⟩⟩⟩
    case cons.cons.cons.cons.cons => exact absurd h (by simp [fieldNames])
    all_goals simp [Command.ofItems?, Command.ofMembers?, members, fieldNames, only?]
  | customResponse =>
    rcases items with _ | ⟨_, _ | ⟨_, _ | ⟨_, items⟩⟩⟩
    case cons.cons.cons => exact absurd h (by simp [fieldNames])
    all_goals simp [Command.ofItems?, Command.ofMembers?, members, fieldNames, only?]

theorem length_of_ofItems? {c : Command} (h : Command.ofItems? kind items = some c) :
    items.length ≤ kind.fieldNames.length := by
  unfold Command.ofItems? at h
  split at h
  case h_5 => cases h
  all_goals simp [fieldNames]

theorem counts_members :
    Counts "kind" (.string kind.name) (kind.members items) :=
  (Json.counts_iff_mem (kind.nodup_members items)).mpr List.mem_cons_self

theorem members_lastWins :
    kind.members (items.map Json.lastWins) = Json.lastWinsMembers (kind.members items) := by
  rw [members, members, Json.lastWinsMembers_eq_map, List.map_cons, List.zip_map_right]
  rfl

variable {kind items} in
theorem name_injective {other : CommandKind} (h : kind.name = other.name) : kind = other := by
  have hkind := ofName?_eq_some_iff.mpr (rfl : kind.name = kind.name)
  exact Option.some.inj (hkind.symm.trans (ofName?_eq_some_iff.mpr h))

end CommandKind

namespace Json

variable {j : Json} {c : Command}

theorem denotesCommand_of_ofJson? (h : Command.ofJson? j = some c) : j.DenotesCommand c := by
  unfold Command.ofJson? at h
  split at h
  next members =>
    simp only [Option.bind_eq_bind, Option.bind_eq_some_iff, string?_eq_some_iff,
      CommandKind.ofName?_eq_some_iff] at h
    obtain ⟨_, hkind, _, rfl, kind, rfl, h⟩ := h
    exact .object (denoteFields_of_ofMembers? (counts_of_only? hkind) h)
  next items =>
    simp only [Option.bind_eq_bind, Option.bind_eq_some_iff, string?_eq_some_iff,
      CommandKind.ofName?_eq_some_iff] at h
    obtain ⟨_, rfl, kind, rfl, h⟩ := h
    have hlength := kind.length_of_ofItems? items h
    rw [kind.ofItems?_eq_ofMembers? items hlength] at h
    exact .array hlength (denoteFields_of_ofMembers? (kind.counts_members items) h)
  next => cases h

theorem distinct_members {kind : CommandKind} {items : List Json} (hd : DistinctItems items) :
    (object (kind.members items)).Distinct := by
  refine ⟨kind.nodup_members items, trivial, distinctMembers_iff.mpr fun m hm => ?_⟩
  exact distinctItems_iff.mp hd m.2 (List.of_mem_zip hm).2

theorem ofJson?_of_denotesCommand (h : j.DenotesCommand c) (hd : j.Distinct) :
    Command.ofJson? j = some c := by
  cases h with
  | object h =>
    have hkind := (only?_eq_some_iff hd.1).mpr h.kind
    simp only [Command.ofJson?, Option.bind_eq_bind, hkind, Option.bind_some, string?,
      CommandKind.ofName?_eq_some_iff.mpr rfl, ofMembers?_of_denoteFields h hd]
  | @array kind items c hlength h =>
    -- no field is called like the kind, so the kind of the array is the one that counts
    have hkind : kind = c.kind := CommandKind.name_injective
      (string.inj ((kind.counts_members items).unique h.kind))
    have hread := ofMembers?_of_denoteFields h (distinct_members hd.2)
    rw [← hkind, ← kind.ofItems?_eq_ofMembers? items hlength] at hread
    simp only [Command.ofJson?, Option.bind_eq_bind, Option.bind_some, string?,
      CommandKind.ofName?_eq_some_iff.mpr rfl, hread]

/-- What fields stand for does not change when the members that count lose those inside that do
not. -/
theorem denoteFields_iff_of_counts {ms members : List (String × Json)}
    (hc : ∀ name j, Counts name j members ↔ ∃ i, Counts name i ms ∧ i.lastWins = j) :
    DenoteFields members c ↔ DenoteFields ms c := by
  have hstring (name s : String) :
      Counts name (string s) members ↔ Counts name (string s) ms := by
    simp only [hc, lastWins_eq_string, exists_eq_right]
  -- a shape is missing from both or from neither, as a name that stands anywhere counts
  have habsent (name : String) :
      (∀ m ∈ members, m.1 ≠ name) ↔ ∀ m ∈ ms, m.1 ≠ name := by
    rw [← forall_not_counts_iff, ← forall_not_counts_iff]
    simp only [hc]
    grind
  constructor
  · intro h
    cases h with
    | rpc hkind hname hargs h =>
      obtain ⟨i, hi, he⟩ := (hc _ _).mp hargs
      obtain ⟨items, rfl, rfl⟩ := lastWins_eq_array.mp he
      rw [← lastWinsItems_eq_map, denoteList_lastWins_iff] at h
      exact .rpc ((hstring _ _).mp hkind) ((hstring _ _).mp hname) hi h
    | custom hkind hjob hkey hmapper hshape h =>
      obtain ⟨i, hi, rfl⟩ := (hc _ _).mp hshape
      exact .custom ((hstring _ _).mp hkind) ((hstring _ _).mp hjob) ((hstring _ _).mp hkey)
        ((hstring _ _).mp hmapper) hi (denotesShape_lastWins_iff.mp h)
    | customStream hkind hjob hkey hmapper hshape =>
      exact .customStream ((hstring _ _).mp hkind) ((hstring _ _).mp hjob) ((hstring _ _).mp hkey)
        ((hstring _ _).mp hmapper) ((habsent _).mp hshape)
    | customResponse hkind hjob hvalue h =>
      obtain ⟨i, hi, he⟩ := (hc _ _).mp hvalue
      obtain ⟨fields, rfl, rfl⟩ := lastWins_eq_object.mp he
      exact .customResponse ((hstring _ _).mp hkind) ((hstring _ _).mp hjob) hi
        (denoteMap_lastWins_iff.mp h)
  · intro h
    cases h with
    | rpc hkind hname hargs h =>
      exact .rpc ((hstring _ _).mpr hkind) ((hstring _ _).mpr hname)
        ((hc _ _).mpr ⟨_, hargs, rfl⟩) (denoteList_lastWins_iff.mpr h)
    | custom hkind hjob hkey hmapper hshape h =>
      exact .custom ((hstring _ _).mpr hkind) ((hstring _ _).mpr hjob) ((hstring _ _).mpr hkey)
        ((hstring _ _).mpr hmapper) ((hc _ _).mpr ⟨_, hshape, rfl⟩)
        (denotesShape_lastWins_iff.mpr h)
    | customStream hkind hjob hkey hmapper hshape =>
      exact .customStream ((hstring _ _).mpr hkind) ((hstring _ _).mpr hjob)
        ((hstring _ _).mpr hkey) ((hstring _ _).mpr hmapper) ((habsent _).mpr hshape)
    | customResponse hkind hjob hvalue h =>
      exact .customResponse ((hstring _ _).mpr hkind) ((hstring _ _).mpr hjob)
        ((hc _ _).mpr ⟨_, hvalue, rfl⟩) (denoteMap_lastWins_iff.mpr h)

theorem denoteFields_members_iff {kind : CommandKind} {items : List Json} :
    DenoteFields (kind.members (items.map lastWins)) c ↔ DenoteFields (kind.members items) c := by
  rw [kind.members_lastWins items]
  exact denoteFields_iff_of_counts fun name j => by rw [lastWinsMembers_eq_map, counts_map]

theorem denotesCommand_lastWins_iff : j.lastWins.DenotesCommand c ↔ j.DenotesCommand c := by
  constructor
  · intro h
    generalize hj : j.lastWins = i at h
    cases h with
    | object h =>
      obtain ⟨ms, rfl, rfl⟩ := lastWins_eq_object.mp hj
      exact .object ((denoteFields_iff_of_counts fun _ _ => counts_lastWins).mp h)
    | array hlength h =>
      obtain ⟨is, rfl, he⟩ := lastWins_eq_array.mp hj
      obtain ⟨i, items, rfl, hi, rfl⟩ := List.map_eq_cons_iff.mp he
      rw [lastWins_eq_string.mp hi]
      rw [List.length_map] at hlength
      exact .array hlength (denoteFields_members_iff.mp h)
  · intro h
    cases h with
    | object h => exact .object ((denoteFields_iff_of_counts fun _ _ => counts_lastWins).mpr h)
    | @array kind items c hlength h =>
      have hlength : (items.map lastWins).length ≤ kind.fieldNames.length := by
        rwa [List.length_map]
      rw [lastWins, lastWinsItems_eq_map]
      exact .array hlength (denoteFields_members_iff.mpr h)

/-- Where the last of several members of one name counts, what is read is exactly what the JSON
stands for. -/
theorem ofJson?_lastWins_iff : Command.ofJson? j.lastWins = some c ↔ j.DenotesCommand c := by
  rw [← denotesCommand_lastWins_iff]
  exact ⟨denotesCommand_of_ofJson?, fun h => ofJson?_of_denotesCommand h (distinct_lastWins j)⟩

end Json

theorem decode_of_openEnvelope? {bs : Bytes} {j : Json}
    (h : openEnvelope? bs = some (protocolVersion, j)) :
    decode bs = match Command.ofJson? j.lastWins with
      | none => .error .notACommand
      | some c => .ok c := by
  rw [decode, h]
  rfl

theorem decode_eq_ok_iff {bs : Bytes} {c : Command} :
    decode bs = .ok c ↔
      ∃ j, openEnvelope? bs = some (protocolVersion, j) ∧ j.DenotesCommand c := by
  constructor
  · intro h
    unfold decode at h
    split at h
    next => cases h
    next version j hopen =>
      split at h
      next => cases h
      next hversion =>
        split at h
        next => cases h
        next hread =>
          cases h
          rw [not_not.mp hversion] at hopen
          exact ⟨j, hopen, Json.ofJson?_lastWins_iff.mp hread⟩
  · rintro ⟨j, hopen, hj⟩
    rw [decode_of_openEnvelope? hopen, Json.ofJson?_lastWins_iff.mpr hj]

/-- A command is decoded exactly if the JSON under version 1 stands for it, and the JSON stands for
one command at most. Everything else is malformed. Whole numbers are the integer literals that fit
a signed or an unsigned word, a negative zero excepted. -/
theorem decode_grammar {bs : Bytes} {j : Json}
    (h : openEnvelope? bs = some (protocolVersion, j)) :
    (∀ c, decode bs = .ok c ↔ j.DenotesCommand c) ∧
    ((¬∃ c, j.DenotesCommand c) → ∃ detail, decode bs = .error (.malformed .command detail)) ∧
    (∀ c c', j.DenotesCommand c → j.DenotesCommand c' → c = c') ∧
    ∀ n k, Json.Number.ofNumeral? n = some (.int k) ↔
      n.isInteger ∧ n.integer = k ∧ (n.negative → k ≠ 0) ∧ -2 ^ 63 ≤ k ∧ k < 2 ^ 64 := by
  refine ⟨fun c => ?_, fun hnone => ?_, fun c c' hc hc' => ?_, fun n k => ?_⟩
  · rw [decode_eq_ok_iff]
    constructor
    · rintro ⟨i, hi, hc⟩
      rw [h] at hi
      cases hi
      exact hc
    · exact fun hc => ⟨j, h, hc⟩
  · rw [decode_of_openEnvelope? h]
    cases hread : Command.ofJson? j.lastWins with
    | none => exact ⟨_, rfl⟩
    | some c => exact absurd ⟨c, Json.ofJson?_lastWins_iff.mp hread⟩ hnone
  · have hread := Json.ofJson?_lastWins_iff.mpr hc
    rw [Json.ofJson?_lastWins_iff.mpr hc'] at hread
    exact (Option.some.inj hread).symm
  · exact Json.Number.ofNumeral?_eq_int_iff

def repeatedNames : Bytes :=
  utf8 ("\x7b\"version\":1,\"command\":\x7b\"args\":[\x7b\"S64\":\"x\",\"S64\":-3\x7d]," ++
    "\"name\":\"g\",\"kind\":\"rpc\",\"name\":\"f\",\"z\":null\x7d\x7d")

theorem decode_grammar_repeated : decode repeatedNames = .ok (.rpc "f" [.s64 (-3)]) := by
  have hopen : openEnvelope? repeatedNames = some (protocolVersion, .object
      [("args", .array [.object [("S64", .string "x"), ("S64", .number (.int (-3)))]]),
        ("name", .string "g"), ("kind", .string "rpc"), ("name", .string "f"), ("z", .null)]) := by
    cbv
  have harg : Json.Denotes (.object [("S64", .string "x"), ("S64", .number (.int (-3)))])
      (.s64 (-3)) :=
    .s64 (n := -3) (Json.keeps_iff.mpr rfl) (by decide) (by decide)
  have hargs : Json.DenoteList [.object [("S64", .string "x"), ("S64", .number (.int (-3)))]]
      [.s64 (-3)] :=
    ⟨[(_, .s64 (-3))], rfl, rfl, List.forall_mem_singleton.mpr harg⟩
  exact ((decode_grammar hopen).1 _).mpr (.object (.rpc (Json.counts_iff.mpr rfl)
    (Json.counts_iff.mpr rfl) (Json.counts_iff.mpr rfl) hargs))

end PeerMesh
