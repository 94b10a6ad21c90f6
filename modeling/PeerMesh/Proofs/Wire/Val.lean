import Mathlib.Tactic.Common
import PeerMesh.Proofs.Json
import PeerMesh.Wire.Val

namespace PeerMesh

def Binary64.NonFinite (x : Binary64) : Prop :=
  x.isNaN ∨ x.magnitude = Binary64.infinity

theorem Binary64.nonFinite_iff (x : Binary64) : x.NonFinite ↔ x.isFinite = false := by
  simp only [NonFinite, isNaN, isFinite, decide_eq_true_eq, decide_eq_false_iff_not]
  omega

namespace Val

/-- The float `x` stands somewhere inside a value. -/
inductive Holds (x : Binary64) : Val → Prop
  | here : Holds x (f64 x)
  | list {items : List Val} {v : Val} (hv : v ∈ items) (h : Holds x v) : Holds x (list items)
  | map {fields : List (String × Val)} {f : String × Val} (hf : f ∈ fields) (h : Holds x f.2) :
    Holds x (map fields)

mutual

/-- How many JSON containers are nested in what is written for a value: two for a list or a map,
one for any other value but the unit value. -/
def nesting : Val → Nat
  | unit => 0
  | list items => nestingItems items + 2
  | map fields => nestingFields fields + 2
  | _ => 1

def nestingItems : List Val → Nat
  | [] => 0
  | v :: vs => max v.nesting (nestingItems vs)

def nestingFields : List (String × Val) → Nat
  | [] => 0
  | (_, v) :: fs => max v.nesting (nestingFields fs)

end

mutual

theorem isFinite_eq_false_iff (v : Val) :
    v.isFinite = false ↔ ∃ x : Binary64, v.Holds x ∧ x.NonFinite := by
  cases v with
  | f64 x =>
    rw [isFinite, ← Binary64.nonFinite_iff]
    constructor
    · exact fun h => ⟨x, .here, h⟩
    · rintro ⟨y, hy, h⟩
      cases hy
      exact h
  | list items =>
    rw [isFinite, allFinite_eq_false_iff items]
    constructor
    · rintro ⟨v, hv, x, hx, h⟩
      exact ⟨x, .list hv hx, h⟩
    · rintro ⟨x, hx, h⟩
      cases hx with
      | list hv hx => exact ⟨_, hv, x, hx, h⟩
  | map fields =>
    rw [isFinite, fieldsFinite_eq_false_iff fields]
    constructor
    · rintro ⟨f, hf, x, hx, h⟩
      exact ⟨x, .map hf hx, h⟩
    · rintro ⟨x, hx, h⟩
      cases hx with
      | map hf hx => exact ⟨_, hf, x, hx, h⟩
  | _ =>
    constructor
    · intro h
      cases h
    · rintro ⟨x, hx, -⟩
      cases hx

theorem allFinite_eq_false_iff (vs : List Val) :
    allFinite vs = false ↔ ∃ v ∈ vs, ∃ x : Binary64, v.Holds x ∧ x.NonFinite := by
  cases vs with
  | nil => simp [allFinite]
  | cons v vs =>
    rw [allFinite, Bool.and_eq_false_iff, isFinite_eq_false_iff v, allFinite_eq_false_iff vs]
    simp

theorem fieldsFinite_eq_false_iff (fs : List (String × Val)) :
    fieldsFinite fs = false ↔ ∃ f ∈ fs, ∃ x : Binary64, f.2.Holds x ∧ x.NonFinite := by
  cases fs with
  | nil => simp [fieldsFinite]
  | cons f fs =>
    rw [fieldsFinite, Bool.and_eq_false_iff, isFinite_eq_false_iff f.2,
      fieldsFinite_eq_false_iff fs]
    simp

end

theorem all_isFinite (vs : List Val) : vs.all isFinite = allFinite vs := by
  induction vs with
  | nil => rfl
  | cons v vs ih => rw [List.all_cons, allFinite, ih]

theorem all_isFinite_fields (fs : List (String × Val)) :
    (fs.all fun f => f.2.isFinite) = fieldsFinite fs := by
  induction fs with
  | nil => rfl
  | cons f fs ih => rw [List.all_cons, fieldsFinite, ih]

mutual

theorem writable_json {v : Val} (h : v.isFinite) : v.json.Writable := by
  cases v with
  | unit => trivial
  | bool b => exact ⟨trivial, trivial⟩
  | s64 n =>
    refine ⟨?_, trivial⟩
    have h₁ := n.le_toInt
    have h₂ := n.toInt_lt
    simp only [Json.Writable, Json.Number.Writable, Nat.one_shiftLeft, UInt64.size]
    omega
  | f64 x =>
    refine ⟨?_, trivial⟩
    rw [isFinite] at h
    exact h
  | string s => exact ⟨trivial, trivial⟩
  | list items =>
    refine ⟨?_, trivial⟩
    rw [isFinite] at h
    exact writable_jsonItems h
  | map fields =>
    refine ⟨?_, trivial⟩
    rw [isFinite] at h
    exact writable_jsonFields h

theorem writable_jsonItems {vs : List Val} (h : allFinite vs) :
    Json.WritableItems (jsonItems vs) := by
  cases vs with
  | nil => trivial
  | cons v vs =>
    rw [allFinite, Bool.and_eq_true] at h
    exact ⟨writable_json h.1, writable_jsonItems h.2⟩

theorem writable_jsonFields {fs : List (String × Val)} (h : fieldsFinite fs) :
    Json.WritableMembers (jsonFields fs) := by
  cases fs with
  | nil => trivial
  | cons f fs =>
    rw [fieldsFinite, Bool.and_eq_true] at h
    exact ⟨writable_json h.1, writable_jsonFields h.2⟩

end

mutual

theorem depth_json (v : Val) : v.json.depth = v.nesting := by
  cases v with
  | list items =>
    simp [json, Json.depth, Json.depthMembers, depth_jsonItems items, nesting]
  | map fields =>
    simp [json, Json.depth, Json.depthMembers, depth_jsonFields fields, nesting]
  | _ => simp [json, Json.depth, Json.depthMembers, nesting]

theorem depth_jsonItems (vs : List Val) : Json.depthItems (jsonItems vs) = nestingItems vs := by
  cases vs with
  | nil => rfl
  | cons v vs => rw [jsonItems, Json.depthItems, nestingItems, depth_json v, depth_jsonItems vs]

theorem depth_jsonFields (fs : List (String × Val)) :
    Json.depthMembers (jsonFields fs) = nestingFields fs := by
  cases fs with
  | nil => rfl
  | cons f fs =>
    rw [jsonFields, Json.depthMembers, nestingFields, depth_json f.2, depth_jsonFields fs]

end

theorem jsonFields_eq_map (fs : List (String × Val)) :
    jsonFields fs = fs.map fun f => (f.1, f.2.json) := by
  induction fs with
  | nil => rfl
  | cons f fs ih => rw [jsonFields, ih, List.map_cons]

theorem ascending_jsonFields {fs : Fields Val} (h : fs.Ascending) :
    Fields.Ascending (jsonFields fs) := by
  rw [jsonFields_eq_map]
  exact List.pairwise_map.mpr h

mutual

theorem lastWins_json {v : Val} (h : v.Canonical) : v.json.lastWins = v.json := by
  cases v with
  | list items =>
    rw [Canonical] at h
    simp only [json, Json.lastWins, Json.lastWinsMembers, lastWins_jsonItems h]
    rfl
  | map fields =>
    rw [Canonical] at h
    simp only [json, Json.lastWins, Json.lastWinsMembers, lastWins_jsonFields h.2,
      Fields.ofList_of_ascending (ascending_jsonFields h.1)]
    rfl
  | _ => rfl

theorem lastWins_jsonItems {vs : List Val} (h : allCanonical vs) :
    Json.lastWinsItems (jsonItems vs) = jsonItems vs := by
  cases vs with
  | nil => rfl
  | cons v vs =>
    rw [allCanonical] at h
    rw [jsonItems, Json.lastWinsItems, lastWins_json h.1, lastWins_jsonItems h.2]

theorem lastWins_jsonFields {fs : List (String × Val)} (h : fieldsCanonical fs) :
    Json.lastWinsMembers (jsonFields fs) = jsonFields fs := by
  cases fs with
  | nil => rfl
  | cons f fs =>
    rw [fieldsCanonical] at h
    rw [jsonFields, Json.lastWinsMembers, lastWins_json h.1, lastWins_jsonFields h.2]

end

mutual

theorem ofJson?_json {v : Val} (h : v.Canonical) (inCommand : Bool) :
    ofJson? inCommand v.json = some v := by
  cases v with
  | s64 n =>
    have hfit : Int64.minValue.toInt ≤ n.toInt ∧ n.toInt ≤ Int64.maxValue.toInt :=
      ⟨n.minValue_le_toInt, n.toInt_le⟩
    rw [json, ofJson?, if_pos hfit, Int64.ofInt_toInt]
  | list items =>
    rw [Canonical] at h
    simp [json, ofJson?, itemsOfJson?_jsonItems h inCommand]
  | map fields =>
    rw [Canonical] at h
    simp [json, ofJson?, membersOfJson?_jsonFields h.2 inCommand, ofEntries,
      Fields.ofList_of_ascending h.1]
  | _ => simp [json, ofJson?, Json.Number.toBinary64]

theorem itemsOfJson?_jsonItems {vs : List Val} (h : allCanonical vs) (inCommand : Bool) :
    itemsOfJson? inCommand (jsonItems vs) = some vs := by
  cases vs with
  | nil => rfl
  | cons v vs =>
    rw [allCanonical] at h
    rw [jsonItems, itemsOfJson?, ofJson?_json h.1, itemsOfJson?_jsonItems h.2]

theorem membersOfJson?_jsonFields {fs : List (String × Val)} (h : fieldsCanonical fs)
    (inCommand : Bool) : membersOfJson? inCommand (jsonFields fs) = some fs := by
  cases fs with
  | nil => rfl
  | cons f fs =>
    rw [fieldsCanonical] at h
    rw [jsonFields, membersOfJson?, ofJson?_json h.1, membersOfJson?_jsonFields h.2]

end

end Val

end PeerMesh
