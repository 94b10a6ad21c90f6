import PeerMesh.Proofs.Fields
import PeerMesh.Proofs.Written

namespace PeerMesh.Json

mutual

def Writable : Json → Prop
  | number n => n.Writable
  | array items => WritableItems items
  | object members => WritableMembers members
  | _ => True

def WritableItems : List Json → Prop
  | [] => True
  | j :: js => j.Writable ∧ WritableItems js

def WritableMembers : List (String × Json) → Prop
  | [] => True
  | (_, j) :: ms => j.Writable ∧ WritableMembers ms

end

namespace Written

mutual

def depth : Written → Nat
  | array items => depthItems items + 1
  | object members => depthMembers members + 1
  | _ => 0

def depthItems : List Written → Nat
  | [] => 0
  | w :: ws => max w.depth (depthItems ws)

def depthMembers : List (Bytes × Written) → Nat
  | [] => 0
  | (_, w) :: ms => max w.depth (depthMembers ms)

end

end Written

theorem legible_body (s : String) : (Scalar.string (body s)).Legible :=
  fun rest => scanBody_escape (utf8 s) [] rest

mutual

theorem legible_written {j : Json} (h : j.Writable) : j.written.Legible := by
  cases j with
  | null => trivial
  | bool b => trivial
  | number n =>
    rw [Writable] at h
    exact Number.wellFormed_numeral h
  | string s => exact legible_body s
  | array items =>
    rw [Writable] at h
    exact legible_writtenItems h
  | object members =>
    rw [Writable] at h
    exact legible_writtenMembers h

theorem legible_writtenItems {js : List Json} (h : WritableItems js) :
    Written.LegibleItems (writtenItems js) := by
  cases js with
  | nil => trivial
  | cons j js =>
    rw [WritableItems] at h
    exact ⟨legible_written h.1, legible_writtenItems h.2⟩

theorem legible_writtenMembers {ms : List (String × Json)} (h : WritableMembers ms) :
    Written.LegibleMembers (writtenMembers ms) := by
  cases ms with
  | nil => trivial
  | cons m ms =>
    rw [WritableMembers] at h
    exact ⟨legible_body m.1, legible_written h.1, legible_writtenMembers h.2⟩

end

mutual

theorem depth_written (j : Json) : j.written.depth = j.depth := by
  cases j with
  | array items => simp only [written, Written.depth, depth, depth_writtenItems items]
  | object members => simp only [written, Written.depth, depth, depth_writtenMembers members]
  | _ => rfl

theorem depth_writtenItems (js : List Json) :
    Written.depthItems (writtenItems js) = depthItems js := by
  cases js with
  | nil => rfl
  | cons j js =>
    simp only [writtenItems, Written.depthItems, depthItems, depth_written j, depth_writtenItems js]

theorem depth_writtenMembers (ms : List (String × Json)) :
    Written.depthMembers (writtenMembers ms) = depthMembers ms := by
  cases ms with
  | nil => rfl
  | cons m ms =>
    simp only [writtenMembers, Written.depthMembers, depthMembers, depth_written m.2,
      depth_writtenMembers ms]

end

mutual

/-- Reading stops at values that nest deeper than there is room for, and gives all others back. -/
theorem read_written {j : Json} (h : j.Writable) (room : Nat) :
    j.written.read room = if j.depth ≤ room then some j else none := by
  cases j with
  | null => rfl
  | bool b => rfl
  | number n =>
    rw [Writable] at h
    simp [written, Written.read, Scalar.read, Number.ofNumeral?_numeral h, depth]
  | string s => simp [written, Written.read, Scalar.read, stringOfBody?_body, depth]
  | array items =>
    rw [Writable] at h
    rw [written, depth]
    cases room with
    | zero => rfl
    | succ room =>
      rw [Written.read, readItems_writtenItems h room]
      by_cases hd : depthItems items ≤ room <;> simp [hd]
  | object members =>
    rw [Writable] at h
    rw [written, depth]
    cases room with
    | zero => rfl
    | succ room =>
      rw [Written.read, readMembers_writtenMembers h room]
      by_cases hd : depthMembers members ≤ room <;> simp [hd]

theorem readItems_writtenItems {js : List Json} (h : WritableItems js) (room : Nat) :
    Written.readItems room (writtenItems js) =
      if depthItems js ≤ room then some js else none := by
  cases js with
  | nil => rfl
  | cons j js =>
    rw [WritableItems] at h
    rw [writtenItems, Written.readItems, read_written h.1, readItems_writtenItems h.2, depthItems]
    by_cases hj : j.depth ≤ room <;> by_cases hjs : depthItems js ≤ room <;> simp [hj, hjs]

theorem readMembers_writtenMembers {ms : List (String × Json)} (h : WritableMembers ms)
    (room : Nat) :
    Written.readMembers room (writtenMembers ms) =
      if depthMembers ms ≤ room then some ms else none := by
  cases ms with
  | nil => rfl
  | cons m ms =>
    rw [WritableMembers] at h
    rw [writtenMembers, Written.readMembers, stringOfBody?_body, read_written h.1,
      readMembers_writtenMembers h.2, depthMembers]
    by_cases hj : m.2.depth ≤ room <;> by_cases hms : depthMembers ms ≤ room <;> simp [hj, hms]

end

theorem ofBytes?_written {j : Json} (h : j.Writable) :
    Written.ofBytes? j.bytes = some j.written :=
  Written.ofBytes?_bytes (legible_written h)

theorem ofBytes?_bytes {j : Json} (h : j.Writable) :
    ofBytes? j.bytes = if j.depth ≤ Written.depthLimit then some j else none := by
  rw [ofBytes?, ofBytes?_written h, Option.bind_some, read_written h]

theorem ofBytes?_string (s : String) : ofBytes? (Json.string s).bytes = some (.string s) := by
  rw [ofBytes?_bytes (j := .string s) trivial]
  rfl

theorem writable_ofNat {n : Nat} (h : n < UInt64.size) : (number (.int n)).Writable := by
  refine ⟨?_, ?_⟩ <;> omega

theorem below?_ofNat {n bound : Nat} (h : n < bound) :
    (number (.int n)).below? bound = some n := by
  have hfit : 0 ≤ (n : Int) ∧ (n : Int) < bound := by omega
  rw [below?, if_pos hfit, Int.toNat_natCast]

theorem read_count {n : Nat} (h : n < UInt64.size) :
    ((number (.int n)).written.read 0).bind (below? UInt64.size) = some n := by
  have hread : (number (.int n)).written.read 0 = some (.number (.int n)) :=
    read_written (writable_ofNat h) 0
  rw [hread, Option.bind_some, below?_ofNat h]

theorem read_string (s : String) : (string s).written.read 0 = some (.string s) :=
  read_written (j := .string s) trivial 0

section LastWins

variable {α : Type}

theorem only?_of_ascending {members : Fields α} (h : members.Ascending) (name : String) :
    only? name members = members.lookup name := by
  induction members with
  | nil => rfl
  | cons m members ih =>
    obtain ⟨hm, hms⟩ := List.pairwise_cons.mp h
    have ih := ih hms
    rw [Fields.lookup_cons_eq_ite]
    unfold only? at ih ⊢
    by_cases hn : name = m.1
    · have hrest : members.filter (fun f => f.1 == name) = [] := by
        rw [List.filter_eq_nil_iff]
        intro f hf he
        have hlt := hm f hf
        rw [← hn, ← eq_of_beq he] at hlt
        exact String.lt_irrefl _ hlt
      rw [if_pos hn, List.filter_cons_of_pos (by simp [hn]), hrest]
    · rw [if_neg hn, List.filter_cons_of_neg (by simpa using Ne.symm hn), ih]

theorem only?_ofList (name : String) (members : List (String × α)) :
    only? name (Fields.ofList members) = members.reverse.lookup name := by
  rw [only?_of_ascending (Fields.ascending_ofList members), Fields.lookup_ofList]

theorem any_ofList (name : String) (members : List (String × α)) :
    (Fields.ofList members).any (fun m => m.1 == name) =
      (members.reverse.lookup name).isSome := by
  rw [← Fields.lookup_ofList]
  induction Fields.ofList members with
  | nil => rfl
  | cons m ms ih =>
    rw [List.any_cons, ih, Fields.lookup_cons_eq_ite]
    by_cases hn : name = m.1
    · simp [hn]
    · have hb : (m.1 == name) = false := beq_false_of_ne (Ne.symm hn)
      simp [hn, hb]

end LastWins

end PeerMesh.Json
