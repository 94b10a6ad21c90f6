import Mathlib
import PeerMesh.Proofs.Range
import PeerMesh.Proofs.Wire.Envelope
import PeerMesh.Proofs.Wire.ValGrammar

namespace PeerMesh

open Json (only? Counts Keeps)

namespace Json

inductive DenotesShape : Json → ResponseShape → Prop
  | name (shape : ResponseShape) : DenotesShape (string shape.name) shape
  | null {members : List (String × Json)} {shape : ResponseShape}
    (h : Keeps members [(shape.name, null)]) : DenotesShape (object members) shape
  | empty {members : List (String × Json)} {shape : ResponseShape}
    (h : Keeps members [(shape.name, object [])]) : DenotesShape (object members) shape

/-- The commands that the members of an object stand for. Members that are not fields of the kind
have no say; a custom command without a shape is one whose responses are a stream. -/
inductive DenoteFields (members : List (String × Json)) : Command → Prop
  | rpc {name : String} {items : List Json} {args : List Val}
    (hkind : Counts "kind" (string "rpc") members) (hname : Counts "name" (string name) members)
    (hargs : Counts "args" (array items) members) (h : DenoteList items args) :
    DenoteFields members (.rpc name args)
  | custom {job key mapper : String} {j : Json} {shape : ResponseShape}
    (hkind : Counts "kind" (string "custom") members) (hjob : Counts "job" (string job) members)
    (hkey : Counts "key" (string key) members) (hmapper : Counts "mapper" (string mapper) members)
    (hshape : Counts "shape" j members) (h : j.DenotesShape shape) :
    DenoteFields members (.custom ⟨job⟩ key mapper shape)
  | customStream {job key mapper : String}
    (hkind : Counts "kind" (string "custom") members) (hjob : Counts "job" (string job) members)
    (hkey : Counts "key" (string key) members) (hmapper : Counts "mapper" (string mapper) members)
    (hshape : ∀ m ∈ members, m.1 ≠ "shape") :
    DenoteFields members (.custom ⟨job⟩ key mapper .stream)
  | customResponse {job : String} {fields : List (String × Json)} {value : Fields Val}
    (hkind : Counts "kind" (string "custom-response") members)
    (hjob : Counts "job" (string job) members) (hvalue : Counts "value" (object fields) members)
    (h : DenoteMap fields value) : DenoteFields members (.customResponse ⟨job⟩ value)

end Json

/-- The fields of a kind in the order in which an array has them. -/
def CommandKind.fieldNames : CommandKind → List String
  | rpc => ["name", "args"]
  | custom => ["job", "key", "mapper", "shape"]
  | customResponse => ["job", "value"]

/-- The members of the object that an array of a kind and of fields stands for. -/
def CommandKind.members (kind : CommandKind) (items : List Json) : List (String × Json) :=
  ("kind", .string kind.name) :: kind.fieldNames.zip items

/-- The commands that JSON stands for: an object of fields, or an array of the kind and of no more
than its fields. -/
inductive Json.DenotesCommand : Json → Command → Prop
  | object {members : List (String × Json)} {c : Command} (h : DenoteFields members c) :
    DenotesCommand (object members) c
  | array {kind : CommandKind} {items : List Json} {c : Command}
    (hlength : items.length ≤ kind.fieldNames.length) (h : DenoteFields (kind.members items) c) :
    DenotesCommand (array (string kind.name :: items)) c

theorem ResponseShape.ofName?_eq_some_iff {s : String} {shape : ResponseShape} :
    ofName? s = some shape ↔ s = shape.name := by
  constructor
  · intro h
    unfold ofName? at h
    split_ifs at h with hs hs <;> cases h <;> exact hs
  · rintro rfl
    cases shape <;> rfl

namespace Json

variable {j : Json} {shape : ResponseShape}

theorem denotesShape_of_ofJson? (h : ResponseShape.ofJson? true j = some shape) :
    j.DenotesShape shape := by
  unfold ResponseShape.ofJson? at h
  split at h
  next s =>
    rw [ResponseShape.ofName?_eq_some_iff.mp h]
    exact .name shape
  next s =>
    rw [ResponseShape.ofName?_eq_some_iff.mp h]
    exact .null (keeps_singleton _)
  next s =>
    rw [ResponseShape.ofName?_eq_some_iff.mp h]
    exact .empty (keeps_singleton _)
  next => cases h

theorem ofJson?_of_denotesShape (h : j.DenotesShape shape) (hd : j.Distinct) :
    ResponseShape.ofJson? true j = some shape := by
  have hname := ResponseShape.ofName?_eq_some_iff.mpr (rfl : shape.name = shape.name)
  cases h with
  | name => exact hname
  | null h | empty h =>
    rw [eq_singleton_of_keeps hd.1 h]
    exact hname

theorem denotesShape_lastWins_iff : j.lastWins.DenotesShape shape ↔ j.DenotesShape shape := by
  constructor
  · intro h
    generalize hj : j.lastWins = i at h
    cases h with
    | name =>
      rw [lastWins_eq_string.mp hj]
      exact .name shape
    | null h =>
      obtain ⟨ms, i, rfl, hi, he⟩ := keeps_of_lastWins hj h
      exact .null (lastWins_eq_null.mp he ▸ hi)
    | empty h =>
      obtain ⟨ms, i, rfl, hi, he⟩ := keeps_of_lastWins hj h
      exact .empty (lastWins_eq_empty.mp he ▸ hi)
  · intro h
    cases h with
    | name => exact .name shape
    | null h => exact .null (keeps_lastWins_singleton.mpr ⟨_, h, rfl⟩)
    | empty h => exact .empty (keeps_lastWins_singleton.mpr ⟨_, h, rfl⟩)

end Json

namespace Json

variable {j : Json}

theorem string?_eq_some_iff {s : String} : j.string? = some s ↔ j = string s := by
  cases j <;> simp [string?]

theorem array?_eq_some_iff {items : List Json} : j.array? = some items ↔ j = array items := by
  cases j <;> simp [array?]

theorem object?_eq_some_iff {members : List (String × Json)} :
    j.object? = some members ↔ j = object members := by
  cases j <;> simp [object?]

end Json

theorem CommandKind.ofName?_eq_some_iff {s : String} {kind : CommandKind} :
    ofName? s = some kind ↔ s = kind.name := by
  constructor
  · intro h
    unfold ofName? at h
    split_ifs at h with hs hs hs <;> cases h <;> exact hs
  · rintro rfl
    cases kind <;> rfl

namespace Command

variable {name args job key mapper value : Json} {c : Command}

theorem rpcOf?_eq_some_iff :
    rpcOf? name args = some c ↔ ∃ s items vs, name = .string s ∧ args = .array items ∧
      Val.itemsOfJson? true items = some vs ∧ c = rpc s vs := by
  simp only [rpcOf?, Option.bind_eq_bind, Option.bind_eq_some_iff, Option.pure_def,
    Option.some.injEq, Json.string?_eq_some_iff, Json.array?_eq_some_iff]
  grind

theorem customOf?_eq_some_iff {shape : Option Json} :
    customOf? job key mapper shape = some c ↔ ∃ s k m sh, job = .string s ∧ key = .string k ∧
      mapper = .string m ∧ shape.elim (some .stream) (ResponseShape.ofJson? true) = some sh ∧
      c = custom ⟨s⟩ k m sh := by
  cases shape <;>
    simp only [customOf?, Option.bind_eq_bind, Option.bind_eq_some_iff, Option.pure_def,
      Option.some.injEq, Json.string?_eq_some_iff, Option.elim] <;>
    grind

theorem responseOf?_eq_some_iff :
    responseOf? job value = some c ↔ ∃ s members fs, job = .string s ∧ value = .object members ∧
      Val.membersOfJson? true members = some fs ∧
      c = customResponse ⟨s⟩ (Fields.ofList fs) := by
  simp only [responseOf?, Option.bind_eq_bind, Option.bind_eq_some_iff, Option.pure_def,
    Option.some.injEq, Json.string?_eq_some_iff, Json.object?_eq_some_iff]
  grind

end Command

namespace Json

variable {members : List (String × Json)} {c : Command}

theorem DenoteFields.kind (h : DenoteFields members c) :
    Counts "kind" (string c.kind.name) members := by
  cases h <;> assumption

theorem denoteFields_of_ofMembers? {kind : CommandKind}
    (hkind : Counts "kind" (string kind.name) members)
    (h : Command.ofMembers? kind members = some c) : DenoteFields members c := by
  cases kind with
  | rpc =>
    simp only [Command.ofMembers?, Option.bind_eq_bind, Option.bind_eq_some_iff] at h
    obtain ⟨name, hname, args, hargs, h⟩ := h
    obtain ⟨s, items, vs, rfl, rfl, hvs, rfl⟩ := Command.rpcOf?_eq_some_iff.mp h
    exact .rpc hkind (counts_of_only? hname) (counts_of_only? hargs)
      (denoteList_of_itemsOfJson? hvs)
  | custom =>
    rw [Command.ofMembers?] at h
    split at h
    next =>
      simp only [Option.bind_eq_bind, Option.bind_eq_some_iff, Option.map_eq_some_iff] at h
      obtain ⟨_, ⟨shape, hshape, rfl⟩, job, hjob, key, hkey, mapper, hmapper, h⟩ := h
      obtain ⟨s, k, m, sh, rfl, rfl, rfl, hsh, rfl⟩ := Command.customOf?_eq_some_iff.mp h
      exact .custom hkind (counts_of_only? hjob) (counts_of_only? hkey) (counts_of_only? hmapper)
        (counts_of_only? hshape) (denotesShape_of_ofJson? hsh)
    next hany =>
      simp only [Option.bind_eq_bind, Option.bind_eq_some_iff, Option.some.injEq] at h
      obtain ⟨_, rfl, job, hjob, key, hkey, mapper, hmapper, h⟩ := h
      obtain ⟨s, k, m, sh, rfl, rfl, rfl, hsh, rfl⟩ := Command.customOf?_eq_some_iff.mp h
      cases hsh
      exact .customStream hkind (counts_of_only? hjob) (counts_of_only? hkey)
        (counts_of_only? hmapper)
        fun m hm he => hany (List.any_eq_true.mpr ⟨m, hm, beq_iff_eq.mpr he⟩)
  | customResponse =>
    simp only [Command.ofMembers?, Option.bind_eq_bind, Option.bind_eq_some_iff] at h
    obtain ⟨job, hjob, value, hvalue, h⟩ := h
    obtain ⟨s, fields, fs, rfl, rfl, hfs, rfl⟩ := Command.responseOf?_eq_some_iff.mp h
    exact .customResponse hkind (counts_of_only? hjob) (counts_of_only? hvalue)
      (denoteMap_of_membersOfJson? hfs)

theorem ofMembers?_of_denoteFields (h : DenoteFields members c) (hd : (object members).Distinct) :
    Command.ofMembers? c.kind members = some c := by
  have honly {name : String} {j : Json} (h : Counts name j members) :
      only? name members = some j ∧ j.Distinct :=
    ⟨(only?_eq_some_iff hd.1).mpr h, distinctMembers_iff.mp hd.2 _ h.mem⟩
  cases h with
  | @rpc name items args hkind hname hargs h =>
    obtain ⟨hargs, hitems⟩ := honly hargs
    simp only [Command.kind, Command.ofMembers?, Option.bind_eq_bind, (honly hname).1, hargs,
      Option.bind_some]
    exact Command.rpcOf?_eq_some_iff.mpr
      ⟨_, _, _, rfl, rfl, itemsOfJson?_of_denoteList h hitems, rfl⟩
  | custom hkind hjob hkey hmapper hshape h =>
    obtain ⟨hshape', hj⟩ := honly hshape
    have hany : members.any (fun m => m.1 == "shape") = true :=
      List.any_eq_true.mpr ⟨_, hshape.mem, beq_self_eq_true _⟩
    simp only [Command.kind, Command.ofMembers?, Option.bind_eq_bind, hany, if_true, hshape',
      Option.map_some, (honly hjob).1, (honly hkey).1, (honly hmapper).1, Option.bind_some]
    exact Command.customOf?_eq_some_iff.mpr
      ⟨_, _, _, _, rfl, rfl, rfl, ofJson?_of_denotesShape h hj, rfl⟩
  | customStream hkind hjob hkey hmapper hshape =>
    have hany : members.any (fun m => m.1 == "shape") = false := by
      simpa using hshape
    simp only [Command.kind, Command.ofMembers?, Option.bind_eq_bind, hany, Bool.false_eq_true,
      if_false, (honly hjob).1, (honly hkey).1, (honly hmapper).1, Option.bind_some]
    exact Command.customOf?_eq_some_iff.mpr ⟨_, _, _, _, rfl, rfl, rfl, rfl, rfl⟩
  | customResponse hkind hjob hvalue h =>
    obtain ⟨hvalue, hfields⟩ := honly hvalue
    obtain ⟨es, hes, rfl⟩ := membersOfJson?_of_denoteMap h hfields
    simp only [Command.kind, Command.ofMembers?, Option.bind_eq_bind, (honly hjob).1, hvalue,
      Option.bind_some]
    exact Command.responseOf?_eq_some_iff.mpr ⟨_, _, _, rfl, rfl, hes, rfl⟩

end Json

end PeerMesh
