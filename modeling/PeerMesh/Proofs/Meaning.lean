import PeerMesh.Proofs.Json
import PeerMesh.Proofs.Range

namespace PeerMesh.Json

/-- A well-formed numeral of a number that rounds to a finite float. -/
structure Fits (n : Numeral) : Prop where
  wellFormed : n.WellFormed
  value_lt : n.value < 2 ^ 1024 - 2 ^ 970

def Scalar.Valid : Scalar → Prop
  | number n => Fits n
  | string body => (stringOfBody? body).isSome
  | _ => True

theorem Scalar.Valid.exists_read {s : Scalar} (h : s.Valid) : ∃ j, s.read = some j := by
  cases s with
  | null => exact ⟨_, rfl⟩
  | bool b => exact ⟨_, rfl⟩
  | number n =>
    obtain ⟨m, hm⟩ := Number.exists_ofNumeral? h.wellFormed h.value_lt
    exact ⟨_, by rw [read, hm, Option.map_some]⟩
  | string body =>
    obtain ⟨s, hs⟩ := Option.isSome_iff_exists.mp h
    exact ⟨_, by rw [read, hs, Option.map_some]⟩

theorem Scalar.read_spec {s : Scalar} {j : Json} (h : s.read = some j) :
    j.depth = 0 ∧ j.Writable := by
  cases s with
  | null | bool b =>
    cases h
    exact ⟨rfl, trivial⟩
  | number n =>
    obtain ⟨m, hm, rfl⟩ := Option.map_eq_some_iff.mp h
    exact ⟨rfl, Number.writable_of_ofNumeral? hm⟩
  | string body =>
    obtain ⟨s, -, rfl⟩ := Option.map_eq_some_iff.mp h
    exact ⟨rfl, trivial⟩

namespace Written

mutual

def Valid : Written → Prop
  | scalar s => s.Valid
  | array items => ValidItems items
  | object members => ValidMembers members

def ValidItems : List Written → Prop
  | [] => True
  | w :: ws => w.Valid ∧ ValidItems ws

def ValidMembers : List (Bytes × Written) → Prop
  | [] => True
  | (name, w) :: ms => (Scalar.string name).Valid ∧ w.Valid ∧ ValidMembers ms

end

mutual

theorem exists_read {w : Written} (h : w.Valid) {room : Nat} (hd : w.depth ≤ room) :
    ∃ j, w.read room = some j := by
  cases w with
  | scalar s => exact Scalar.Valid.exists_read h
  | array items =>
    rw [Valid] at h
    rw [depth] at hd
    cases room with
    | zero => omega
    | succ room =>
      obtain ⟨js, hjs⟩ := exists_readItems h (Nat.le_of_succ_le_succ hd)
      exact ⟨_, by rw [read, hjs, Option.map_some]⟩
  | object members =>
    rw [Valid] at h
    rw [depth] at hd
    cases room with
    | zero => omega
    | succ room =>
      obtain ⟨js, hjs⟩ := exists_readMembers h (Nat.le_of_succ_le_succ hd)
      exact ⟨_, by rw [read, hjs, Option.map_some]⟩

theorem exists_readItems {ws : List Written} (h : ValidItems ws) {room : Nat}
    (hd : depthItems ws ≤ room) : ∃ js, readItems room ws = some js := by
  cases ws with
  | nil => exact ⟨[], rfl⟩
  | cons w ws =>
    rw [ValidItems] at h
    rw [depthItems, Nat.max_le] at hd
    obtain ⟨j, hj⟩ := exists_read h.1 hd.1
    obtain ⟨js, hjs⟩ := exists_readItems h.2 hd.2
    exact ⟨_, by rw [readItems, hj, hjs]⟩

theorem exists_readMembers {ms : List (Bytes × Written)} (h : ValidMembers ms) {room : Nat}
    (hd : depthMembers ms ≤ room) : ∃ js, readMembers room ms = some js := by
  cases ms with
  | nil => exact ⟨[], rfl⟩
  | cons m ms =>
    rw [ValidMembers] at h
    rw [depthMembers, Nat.max_le] at hd
    obtain ⟨s, hs⟩ := Option.isSome_iff_exists.mp h.1
    obtain ⟨j, hj⟩ := exists_read h.2.1 hd.1
    obtain ⟨js, hjs⟩ := exists_readMembers h.2.2 hd.2
    exact ⟨_, by rw [readMembers, hs, hj, hjs]⟩

end

mutual

/-- What a value stands for nests as deep as the value, and can be written. -/
theorem read_spec {w : Written} {room : Nat} {j : Json} (h : w.read room = some j) :
    j.depth = w.depth ∧ w.depth ≤ room ∧ j.Writable := by
  cases w with
  | scalar s =>
    obtain ⟨hd, hw⟩ := Scalar.read_spec h
    exact ⟨hd, Nat.zero_le room, hw⟩
  | array items =>
    cases room with
    | zero => cases h
    | succ room =>
      obtain ⟨js, hjs, rfl⟩ := Option.map_eq_some_iff.mp h
      obtain ⟨hd, hroom, hw⟩ := readItems_spec hjs
      exact ⟨congrArg (· + 1) hd, Nat.succ_le_succ hroom, hw⟩
  | object members =>
    cases room with
    | zero => cases h
    | succ room =>
      obtain ⟨js, hjs, rfl⟩ := Option.map_eq_some_iff.mp h
      obtain ⟨hd, hroom, hw⟩ := readMembers_spec hjs
      exact ⟨congrArg (· + 1) hd, Nat.succ_le_succ hroom, hw⟩

theorem readItems_spec {ws : List Written} {room : Nat} {js : List Json}
    (h : readItems room ws = some js) :
    Json.depthItems js = depthItems ws ∧ depthItems ws ≤ room ∧ WritableItems js := by
  cases ws with
  | nil =>
    cases h
    exact ⟨rfl, Nat.zero_le room, trivial⟩
  | cons w ws =>
    rw [readItems] at h
    split at h
    next hj hjs =>
      cases h
      obtain ⟨hd, hroom, hw⟩ := read_spec hj
      obtain ⟨hds, hrooms, hws⟩ := readItems_spec hjs
      exact ⟨congrArg₂ max hd hds, Nat.max_le.mpr ⟨hroom, hrooms⟩, hw, hws⟩
    next => cases h

theorem readMembers_spec {ms : List (Bytes × Written)} {room : Nat} {js : List (String × Json)}
    (h : readMembers room ms = some js) :
    Json.depthMembers js = depthMembers ms ∧ depthMembers ms ≤ room ∧ WritableMembers js := by
  cases ms with
  | nil =>
    cases h
    exact ⟨rfl, Nat.zero_le room, trivial⟩
  | cons m ms =>
    rw [readMembers] at h
    split at h
    next hj hjs =>
      cases h
      obtain ⟨hd, hroom, hw⟩ := read_spec hj
      obtain ⟨hds, hrooms, hws⟩ := readMembers_spec hjs
      exact ⟨congrArg₂ max hd hds, Nat.max_le.mpr ⟨hroom, hrooms⟩, hw, hws⟩
    next => cases h

end

end Written

end PeerMesh.Json
