import PeerMesh.Proofs.Json

namespace PeerMesh

namespace Fields

variable {α β : Type} (f : α → β)

theorem map_insert (key : String) (value : α) (fs : Fields α) :
    (insert key value fs).map (fun e => (e.1, f e.2)) =
      insert key (f value) (fs.map fun e => (e.1, f e.2)) := by
  induction fs with
  | nil => rfl
  | cons e fs ih =>
    simp only [insert, List.map_cons]
    split
    · rfl
    · split
      · rw [List.map_cons, ih]
      · rfl

theorem map_ofList (entries : List (String × α)) :
    (ofList entries).map (fun e => (e.1, f e.2)) = ofList (entries.map fun e => (e.1, f e.2)) := by
  have hfold (done : Fields α) :
      (entries.foldl (fun fs e => insert e.1 e.2 fs) done).map (fun e => (e.1, f e.2)) =
        (entries.map fun e => (e.1, f e.2)).foldl (fun fs e => insert e.1 e.2 fs)
          (done.map fun e => (e.1, f e.2)) := by
    induction entries generalizing done with
    | nil => rfl
    | cons e entries ih => rw [List.foldl_cons, ih, map_insert, List.map_cons, List.foldl_cons]
  exact hfold []

end Fields

namespace Json

variable {α : Type} {name : String} {x : α} {members kept : List (String × α)}

/-- The last member of that name has the value `x`. -/
def Counts (name : String) (x : α) (members : List (String × α)) : Prop :=
  ∃ before after, members = before ++ (name, x) :: after ∧ ∀ m ∈ after, m.1 ≠ name

/-- The members that count are those of `kept`, which is in ascending order of name. -/
def Keeps (members kept : List (String × α)) : Prop :=
  Fields.Ascending kept ∧ ∀ name x, (name, x) ∈ kept ↔ Counts name x members

theorem counts_iff : Counts name x members ↔ members.reverse.lookup name = some x := by
  rw [List.lookup_eq_some_iff]
  constructor
  · rintro ⟨before, after, rfl, ha⟩
    exact ⟨after.reverse, before.reverse, by simp,
      fun m hm => bne_iff_ne.mpr (ha m (List.mem_reverse.mp hm)).symm⟩
  · rintro ⟨after, before, hr, ha⟩
    rw [List.reverse_eq_iff] at hr
    exact ⟨before.reverse, after.reverse, by simp [hr],
      fun m hm => (bne_iff_ne.mp (ha m (List.mem_reverse.mp hm))).symm⟩

theorem Counts.mem (h : Counts name x members) : (name, x) ∈ members := by
  obtain ⟨before, after, rfl, -⟩ := h
  simp

theorem Counts.unique {y : α} (hx : Counts name x members) (hy : Counts name y members) : x = y :=
  Option.some.inj ((counts_iff.mp hx).symm.trans (counts_iff.mp hy))

theorem counts_iff_mem_ofList : Counts name x members ↔ (name, x) ∈ Fields.ofList members := by
  rw [counts_iff, ← Fields.lookup_ofList]
  exact ⟨Fields.mem_of_lookup, Fields.lookup_of_mem (Fields.ascending_ofList members)⟩

theorem forall_not_counts_iff : (∀ x, ¬Counts name x members) ↔ ∀ m ∈ members, m.1 ≠ name := by
  simp only [counts_iff, ← Option.eq_none_iff_forall_ne_some, List.lookup_eq_none_iff,
    List.mem_reverse, bne_iff_ne, ne_comm]

theorem keeps_iff : Keeps members kept ↔ Fields.ofList members = kept := by
  constructor
  · rintro ⟨ha, hk⟩
    refine Fields.Ascending.eq_of_mem_iff (Fields.ascending_ofList members) ha fun m => ?_
    rw [← counts_iff_mem_ofList, hk]
  · rintro rfl
    exact ⟨Fields.ascending_ofList members, fun _ _ => counts_iff_mem_ofList.symm⟩

theorem keeps_singleton (m : String × α) : Keeps [m] [m] :=
  keeps_iff.mpr rfl

theorem ofList_eq_nil_iff : Fields.ofList members = [] ↔ members = [] := by
  refine ⟨fun h => List.eq_nil_iff_forall_not_mem.mpr fun m hm => ?_, fun h => by rw [h]; rfl⟩
  refine forall_not_counts_iff.mp (fun x hx => ?_) m hm rfl
  rw [counts_iff_mem_ofList, h] at hx
  cases hx

theorem Keeps.counts (h : Keeps members kept) {m : String × α} (hm : m ∈ kept) :
    Counts m.1 m.2 members :=
  (h.2 m.1 m.2).mp hm

theorem Keeps.mem (h : Keeps members kept) {m : String × α} (hm : m ∈ kept) : m ∈ members :=
  (h.counts hm).mem

theorem counts_ofList : Counts name x (Fields.ofList members) ↔ Counts name x members := by
  rw [counts_iff_mem_ofList, Fields.ofList_of_ascending (Fields.ascending_ofList members),
    counts_iff_mem_ofList]

theorem counts_map {β : Type} (f : α → β) {y : β} :
    Counts name y (members.map fun m => (m.1, f m.2)) ↔
      ∃ x, Counts name x members ∧ f x = y := by
  simp only [counts_iff_mem_ofList, ← Fields.map_ofList, List.mem_map, Prod.mk.injEq]
  constructor
  · rintro ⟨⟨n, x⟩, hx, rfl, rfl⟩
    exact ⟨x, hx, rfl⟩
  · rintro ⟨x, hx, rfl⟩
    exact ⟨(name, x), hx, rfl, rfl⟩

theorem filter_name_eq_nil (h : ∀ m ∈ members, m.1 ≠ name) :
    members.filter (fun m => m.1 == name) = [] :=
  List.filter_eq_nil_iff.mpr fun m hm => by simpa using h m hm

theorem only?_append_cons {before after : List (String × α)} (x : α)
    (hb : ∀ m ∈ before, m.1 ≠ name) (ha : ∀ m ∈ after, m.1 ≠ name) :
    only? name (before ++ (name, x) :: after) = some x := by
  have hx : ((name, x) :: after).filter (fun m => m.1 == name) = [(name, x)] := by
    simp [filter_name_eq_nil ha]
  rw [only?, List.filter_append, filter_name_eq_nil hb, hx, List.nil_append]

theorem counts_of_only? (h : only? name members = some x) : Counts name x members := by
  unfold only? at h
  split at h
  next m hfilter =>
    cases h
    obtain ⟨before, after, rfl, -, hm, ha⟩ := List.filter_eq_cons_iff.mp hfilter
    obtain rfl := eq_of_beq hm
    exact ⟨before, after, rfl, fun m h => by simpa using List.filter_eq_nil_iff.mp ha m h⟩
  next => cases h

variable (hn : (members.map (·.1)).Nodup)

include hn

theorem counts_iff_mem : Counts name x members ↔ (name, x) ∈ members := by
  refine ⟨Counts.mem, fun hx => ?_⟩
  obtain ⟨before, after, rfl⟩ := List.append_of_mem hx
  rw [List.map_append, List.map_cons, List.nodup_append, List.nodup_cons] at hn
  refine ⟨before, after, rfl, fun m hm he => hn.2.1.1 ?_⟩
  exact List.mem_map.mpr ⟨m, hm, he⟩

theorem only?_eq_some_iff : only? name members = some x ↔ Counts name x members := by
  refine ⟨counts_of_only?, fun h => ?_⟩
  obtain ⟨before, after, rfl, ha⟩ := h
  rw [List.map_append, List.map_cons, List.nodup_append] at hn
  refine only?_append_cons x (fun m hm he => ?_) ha
  exact hn.2.2 _ (List.mem_map.mpr ⟨m, hm, rfl⟩) _ List.mem_cons_self he

theorem eq_singleton_of_keeps (h : Keeps members [(name, x)]) : members = [(name, x)] := by
  have hperm : members.Perm [(name, x)] :=
    (List.perm_ext_iff_of_nodup (.of_map _ hn) (List.nodup_singleton _)).mpr fun m =>
      (counts_iff_mem hn).symm.trans (h.2 m.1 m.2).symm
  exact List.perm_singleton.mp hperm

omit hn

theorem lastWinsItems_eq_map (js : List Json) : lastWinsItems js = js.map lastWins := by
  induction js with
  | nil => rfl
  | cons j js ih => rw [lastWinsItems, ih, List.map_cons]

theorem lastWinsMembers_eq_map (ms : List (String × Json)) :
    lastWinsMembers ms = ms.map fun m => (m.1, m.2.lastWins) := by
  induction ms with
  | nil => rfl
  | cons m ms ih => rw [lastWinsMembers, ih, List.map_cons]

theorem counts_lastWins {j : Json} {ms : List (String × Json)} :
    Counts name j (Fields.ofList (lastWinsMembers ms)) ↔
      ∃ i, Counts name i ms ∧ i.lastWins = j := by
  rw [counts_ofList, lastWinsMembers_eq_map, counts_map]

theorem keeps_lastWins {ms kept : List (String × Json)} :
    Keeps (Fields.ofList (lastWinsMembers ms)) kept ↔
      ∃ fs, Keeps ms fs ∧ lastWinsMembers fs = kept := by
  simp only [keeps_iff, Fields.ofList_of_ascending (Fields.ascending_ofList _), exists_eq_left',
    lastWinsMembers_eq_map, Fields.map_ofList]

theorem keeps_lastWins_singleton {j : Json} {ms : List (String × Json)} :
    Keeps (Fields.ofList (lastWinsMembers ms)) [(name, j)] ↔
      ∃ i, Keeps ms [(name, i)] ∧ i.lastWins = j := by
  rw [keeps_lastWins]
  constructor
  · rintro ⟨fs, hfs, he⟩
    rw [lastWinsMembers_eq_map, List.map_eq_singleton_iff] at he
    obtain ⟨⟨n, i⟩, rfl, hi⟩ := he
    cases hi
    exact ⟨i, hfs, rfl⟩
  · rintro ⟨i, hi, rfl⟩
    exact ⟨_, hi, rfl⟩

section Shape

variable {j : Json}

theorem lastWins_eq_null : j.lastWins = null ↔ j = null := by
  cases j <;> simp [lastWins]

theorem lastWins_eq_bool {b : Bool} : j.lastWins = bool b ↔ j = bool b := by
  cases j <;> simp [lastWins]

theorem lastWins_eq_number {n : Number} : j.lastWins = number n ↔ j = number n := by
  cases j <;> simp [lastWins]

theorem lastWins_eq_string {s : String} : j.lastWins = string s ↔ j = string s := by
  cases j <;> simp [lastWins]

theorem lastWins_eq_array {items : List Json} :
    j.lastWins = array items ↔ ∃ is, j = array is ∧ is.map lastWins = items := by
  cases j <;> simp [lastWins, lastWinsItems_eq_map]

theorem lastWins_eq_object {members : List (String × Json)} :
    j.lastWins = object members ↔
      ∃ ms, j = object ms ∧ Fields.ofList (lastWinsMembers ms) = members := by
  cases j <;> simp [lastWins]

theorem lastWins_eq_empty : j.lastWins = object [] ↔ j = object [] := by
  rw [lastWins_eq_object]
  constructor
  · rintro ⟨ms, rfl, he⟩
    rw [lastWinsMembers_eq_map, ofList_eq_nil_iff, List.map_eq_nil_iff] at he
    rw [he]
  · rintro rfl
    exact ⟨[], rfl, rfl⟩

theorem keeps_of_lastWins {i : Json} {members : List (String × Json)}
    (hj : j.lastWins = object members) (h : Keeps members [(name, i)]) :
    ∃ ms k, j = object ms ∧ Keeps ms [(name, k)] ∧ k.lastWins = i := by
  obtain ⟨ms, rfl, rfl⟩ := lastWins_eq_object.mp hj
  obtain ⟨k, hk, he⟩ := keeps_lastWins_singleton.mp h
  exact ⟨ms, k, rfl, hk, he⟩

end Shape

mutual

/-- No object inside has two members of one name. -/
def Distinct : Json → Prop
  | array items => DistinctItems items
  | object members => (members.map (·.1)).Nodup ∧ DistinctMembers members
  | _ => True

def DistinctItems : List Json → Prop
  | [] => True
  | j :: js => j.Distinct ∧ DistinctItems js

def DistinctMembers : List (String × Json) → Prop
  | [] => True
  | (_, j) :: ms => j.Distinct ∧ DistinctMembers ms

end

theorem distinctItems_iff {js : List Json} : DistinctItems js ↔ ∀ j ∈ js, j.Distinct := by
  induction js with
  | nil => simp [DistinctItems]
  | cons j js ih => rw [DistinctItems, ih, List.forall_mem_cons]

theorem distinctMembers_iff {ms : List (String × Json)} :
    DistinctMembers ms ↔ ∀ m ∈ ms, m.2.Distinct := by
  induction ms with
  | nil => simp [DistinctMembers]
  | cons m ms ih => rw [DistinctMembers, ih, List.forall_mem_cons]

mutual

theorem distinct_lastWins (j : Json) : j.lastWins.Distinct := by
  cases j with
  | array items =>
    rw [lastWins, Distinct]
    exact distinct_lastWinsItems items
  | object members =>
    rw [lastWins, Distinct, distinctMembers_iff]
    have ha := Fields.ascending_ofList (lastWinsMembers members)
    refine ⟨List.Pairwise.imp ?_ (List.pairwise_map.mpr ha), fun m hm => ?_⟩
    · rintro a b hab rfl
      exact String.lt_irrefl a hab
    · exact distinctMembers_iff.mp (distinct_lastWinsMembers members) m
        (counts_iff_mem_ofList.mpr hm).mem
  | _ => trivial

theorem distinct_lastWinsItems (js : List Json) : DistinctItems (lastWinsItems js) := by
  cases js with
  | nil => trivial
  | cons j js => exact ⟨distinct_lastWins j, distinct_lastWinsItems js⟩

theorem distinct_lastWinsMembers (ms : List (String × Json)) :
    DistinctMembers (lastWinsMembers ms) := by
  cases ms with
  | nil => trivial
  | cons m ms => exact ⟨distinct_lastWins m.2, distinct_lastWinsMembers ms⟩

end

end Json

end PeerMesh
