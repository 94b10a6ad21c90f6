import PeerMesh.Proofs.Wire.Envelope

namespace PeerMesh

open Json (Written only?)

namespace Command

variable {c : Command}

theorem kind_of_rpcOf? {name args : Json} (h : rpcOf? name args = some c) : c.kind = .rpc := by
  simp only [rpcOf?, Option.bind_eq_bind, Option.bind_eq_some_iff, Option.pure_def,
    Option.some.injEq] at h
  obtain ⟨_, -, _, -, _, -, rfl⟩ := h
  rfl

theorem kind_of_customOf? {job key mapper : Json} {shape : Option Json}
    (h : customOf? job key mapper shape = some c) : c.kind = .custom := by
  cases shape with
  | none | some j =>
    simp only [customOf?, Option.bind_eq_bind, Option.bind_eq_some_iff, Option.pure_def,
      Option.some.injEq] at h
    obtain ⟨_, -, _, -, _, -, _, -, rfl⟩ := h
    rfl

theorem kind_of_responseOf? {job value : Json} (h : responseOf? job value = some c) :
    c.kind = .customResponse := by
  simp only [responseOf?, Option.bind_eq_bind, Option.bind_eq_some_iff, Option.pure_def,
    Option.some.injEq] at h
  obtain ⟨_, -, _, -, _, -, rfl⟩ := h
  rfl

theorem kind_of_ofMembers? {k : CommandKind} {members : List (String × Json)}
    (h : ofMembers? k members = some c) : c.kind = k := by
  cases k with
  | rpc =>
    simp only [ofMembers?, Option.bind_eq_bind, Option.bind_eq_some_iff] at h
    obtain ⟨_, -, _, -, h⟩ := h
    exact kind_of_rpcOf? h
  | custom =>
    rw [ofMembers?] at h
    split at h
    · simp only [Option.bind_eq_bind, Option.bind_eq_some_iff] at h
      obtain ⟨_, -, _, -, _, -, _, -, h⟩ := h
      exact kind_of_customOf? h
    · simp only [Option.bind_eq_bind, Option.bind_eq_some_iff] at h
      obtain ⟨_, -, _, -, _, -, _, -, h⟩ := h
      exact kind_of_customOf? h
  | customResponse =>
    simp only [ofMembers?, Option.bind_eq_bind, Option.bind_eq_some_iff] at h
    obtain ⟨_, -, _, -, h⟩ := h
    exact kind_of_responseOf? h

theorem ofName?_name (k : CommandKind) : CommandKind.ofName? k.name = some k := by
  cases k <;> rfl

theorem only?_kind (c : Command) :
    only? "kind"
        (Fields.ofList (Json.lastWinsMembers (("kind", .string c.kind.name) :: c.fields))) =
      some (.string c.kind.name) := by
  rw [Json.only?_ofList]
  cases c <;> simp [fields, Json.lastWinsMembers, Json.lastWins, Fields.lookup_cons_eq_ite]

theorem kind_of_lastWins {c' : Command} (h : ofJson? c.json.lastWins = some c') :
    c'.kind = c.kind := by
  rw [json, Json.lastWins, ofJson?, only?_kind, Option.bind_eq_bind, Option.bind_some, Json.string?,
    Option.bind_eq_bind, Option.bind_some, ofName?_name, Option.bind_eq_bind,
    Option.bind_some] at h
  exact kind_of_ofMembers? h

end Command

theorem ofJson?_of_decode {c c' : Command} (hf : c.isFinite)
    (h : decode (Envelope.bytes ⟨protocolVersion, c⟩) = .ok c') :
    Command.ofJson? c.json.lastWins = some c' := by
  rw [decode, Envelope.openEnvelope?_bytes hf] at h
  by_cases hn : c.nesting ≤ Written.depthLimit
  · rw [if_pos hn] at h
    dsimp only at h
    rw [if_neg (not_not_intro rfl)] at h
    split at h
    · cases h
    · next hjson =>
      cases h
      exact hjson
  · rw [if_neg hn] at h
    cases h

/-- Decoding what was encoded gives a command of the same kind, if it gives any. -/
theorem kind_of_decode {c c' : Command} (hf : c.isFinite)
    (h : decode (Envelope.bytes ⟨protocolVersion, c⟩) = .ok c') : c'.kind = c.kind :=
  Command.kind_of_lastWins (ofJson?_of_decode hf h)

theorem Fields.lookup_isSome_iff {α : Type} {fs : Fields α} {k : String} :
    (fs.lookup k).isSome ↔ k ∈ fs.map (·.1) := by
  induction fs with
  | nil => simp
  | cons f fs ih =>
    rw [lookup_cons_eq_ite, List.map_cons, List.mem_cons, ← ih]
    by_cases hk : k = f.1 <;> simp [hk]

theorem Fields.mem_names_ofList {α : Type} {entries : List (String × α)} {k : String} :
    k ∈ (ofList entries).map (·.1) ↔ k ∈ entries.map (·.1) := by
  rw [← lookup_isSome_iff, lookup_ofList, lookup_isSome_iff, List.map_reverse, List.mem_reverse]

theorem Json.names_lastWinsMembers (members : List (String × Json)) :
    (lastWinsMembers members).map (·.1) = members.map (·.1) := by
  induction members with
  | nil => rfl
  | cons m members ih => simp [lastWinsMembers, ih]

theorem Val.names_membersOfJson? {inCommand : Bool} {members : List (String × Json)}
    {fs : List (String × Val)} (h : membersOfJson? inCommand members = some fs) :
    fs.map (·.1) = members.map (·.1) := by
  induction members generalizing fs with
  | nil =>
    cases h
    rfl
  | cons m members ih =>
    rw [membersOfJson?] at h
    split at h
    · next hv hfs =>
      cases h
      simp [ih hfs]
    · cases h

theorem Command.ofJson?_lastWins_members (job : JobId) (value : Fields Val) :
    ofJson? (customResponse job value).json.lastWins =
      (Val.membersOfJson? true
        (Fields.ofList (Json.lastWinsMembers (Val.jsonFields value)))).map fun fs =>
          customResponse job (Fields.ofList fs) := by
  simp [json, kind, CommandKind.name, fields, Json.lastWins, Json.lastWinsMembers, ofJson?,
    Json.only?_ofList, Fields.lookup_cons_eq_ite, Json.string?, CommandKind.ofName?, ofMembers?,
    responseOf?, Json.object?, Option.map_eq_bind]

theorem names_of_decode {job : JobId} {value : Fields Val} {c : Command}
    (hf : (Command.customResponse job value).isFinite)
    (h : decode (Envelope.bytes ⟨protocolVersion, .customResponse job value⟩) = .ok c) :
    ∃ value', c = .customResponse job value' ∧
      ∀ k, k ∈ value'.map (·.1) ↔ k ∈ value.map (·.1) := by
  have hjson := ofJson?_of_decode hf h
  rw [Command.ofJson?_lastWins_members, Option.map_eq_some_iff] at hjson
  obtain ⟨fs, hfs, rfl⟩ := hjson
  refine ⟨_, rfl, fun k => ?_⟩
  rw [Fields.mem_names_ofList, Val.names_membersOfJson? hfs, Fields.mem_names_ofList,
    Json.names_lastWinsMembers, Val.jsonFields_eq_map]
  simp

end PeerMesh
