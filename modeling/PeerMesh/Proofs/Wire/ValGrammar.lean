import PeerMesh.Proofs.Repeats
import PeerMesh.Proofs.Wire.Val

namespace PeerMesh

namespace Json

/-- The values that JSON stands for. Of several members of one name the last one counts. -/
inductive Denotes : Json → Val → Prop
  | unit : Denotes (string "Unit") .unit
  | unitNull {members : List (String × Json)} (h : Keeps members [("Unit", null)]) :
    Denotes (object members) .unit
  | unitEmpty {members : List (String × Json)} (h : Keeps members [("Unit", object [])]) :
    Denotes (object members) .unit
  | bool {members : List (String × Json)} {b : Bool} (h : Keeps members [("Bool", bool b)]) :
    Denotes (object members) (.bool b)
  | s64 {members : List (String × Json)} {n : Int} (h : Keeps members [("S64", number (.int n))])
    (hlow : -2 ^ 63 ≤ n) (hhigh : n < 2 ^ 63) : Denotes (object members) (.s64 (Int64.ofInt n))
  | f64 {members : List (String × Json)} {n : Number} (h : Keeps members [("F64", number n)]) :
    Denotes (object members) (.f64 n.toBinary64)
  | string {members : List (String × Json)} {s : String}
    (h : Keeps members [("String", string s)]) : Denotes (object members) (.string s)
  | list {members : List (String × Json)} {rows : List (Json × Val)}
    (h : Keeps members [("List", array (rows.map fun r => r.1))])
    (hrows : ∀ r ∈ rows, Denotes r.1 r.2) : Denotes (object members) (.list (rows.map fun r => r.2))
  | map {members fields : List (String × Json)} {rows : List (String × Json × Val)}
    (h : Keeps members [("Map", object fields)])
    (hkeeps : Keeps fields (rows.map fun r => (r.1, r.2.1)))
    (hrows : ∀ r ∈ rows, Denotes r.2.1 r.2.2) :
    Denotes (object members) (.map (rows.map fun r => (r.1, r.2.2)))

def DenoteList (items : List Json) (vs : List Val) : Prop :=
  ∃ rows : List (Json × Val), items = rows.map (fun r => r.1) ∧ vs = rows.map (fun r => r.2) ∧
    ∀ r ∈ rows, r.1.Denotes r.2

/-- The members that count stand for the entries, under the same names. -/
def DenoteMap (members : List (String × Json)) (fs : Fields Val) : Prop :=
  ∃ rows : List (String × Json × Val), Keeps members (rows.map fun r => (r.1, r.2.1)) ∧
    fs = rows.map (fun r => (r.1, r.2.2)) ∧ ∀ r ∈ rows, r.2.1.Denotes r.2.2

theorem keeps_ofList_rows {β γ : Type} (rows : List (String × β × γ)) :
    Keeps (rows.map fun r => (r.1, r.2.1)) ((Fields.ofList rows).map fun r => (r.1, r.2.1)) :=
  keeps_iff.mpr (Fields.map_ofList Prod.fst rows).symm

mutual

theorem denotes_of_ofJson? {j : Json} {v : Val} (h : Val.ofJson? true j = some v) :
    j.Denotes v := by
  unfold Val.ofJson? at h
  split at h
  next s =>
    split at h
    next hs =>
      cases h
      exact hs ▸ .unit
    next => cases h
  next name j =>
    split at h
    next =>
      cases h
      exact .unitNull (keeps_singleton _)
    next =>
      cases h
      exact .unitEmpty (keeps_singleton _)
    next b =>
      cases h
      exact .bool (keeps_singleton _)
    next n =>
      split at h
      next hn =>
        cases h
        exact .s64 (keeps_singleton _) hn.1 (Int.lt_of_le_sub_one hn.2)
      next => cases h
    next n =>
      cases h
      exact .f64 (keeps_singleton _)
    next s =>
      cases h
      exact .string (keeps_singleton _)
    next items =>
      obtain ⟨vs, hvs, rfl⟩ := Option.map_eq_some_iff.mp h
      obtain ⟨rows, rfl, rfl, hrows⟩ := denoteList_of_itemsOfJson? hvs
      exact .list (keeps_singleton _) hrows
    next members =>
      obtain ⟨fs, hfs, rfl⟩ := Option.map_eq_some_iff.mp h
      obtain ⟨rows, rfl, rfl, hrows⟩ := rows_of_membersOfJson? hfs
      rw [Val.ofEntries, ← Fields.map_ofList]
      exact .map (keeps_singleton _) (keeps_ofList_rows rows)
        fun r hr => hrows r (counts_iff_mem_ofList.mpr hr).mem
    next => cases h
  next => cases h

theorem denoteList_of_itemsOfJson? {js : List Json} {vs : List Val}
    (h : Val.itemsOfJson? true js = some vs) : DenoteList js vs := by
  cases js with
  | nil =>
    cases h
    exact ⟨[], rfl, rfl, List.forall_mem_nil _⟩
  | cons j js =>
    rw [Val.itemsOfJson?] at h
    split at h
    next v vs hv hvs =>
      cases h
      obtain ⟨rows, rfl, rfl, hrows⟩ := denoteList_of_itemsOfJson? hvs
      exact ⟨(j, v) :: rows, rfl, rfl,
        List.forall_mem_cons.mpr ⟨denotes_of_ofJson? hv, hrows⟩⟩
    next => cases h

theorem rows_of_membersOfJson? :
    ∀ {ms : List (String × Json)} {fs : List (String × Val)},
      Val.membersOfJson? true ms = some fs →
      ∃ rows : List (String × Json × Val), ms = rows.map (fun r => (r.1, r.2.1)) ∧
        fs = rows.map (fun r => (r.1, r.2.2)) ∧ ∀ r ∈ rows, r.2.1.Denotes r.2.2
  | [], _, h => by
    cases h
    exact ⟨[], rfl, rfl, List.forall_mem_nil _⟩
  | (name, j) :: ms, _, h => by
    rw [Val.membersOfJson?] at h
    split at h
    next v fs hv hfs =>
      cases h
      obtain ⟨rows, rfl, rfl, hrows⟩ := rows_of_membersOfJson? hfs
      exact ⟨(name, j, v) :: rows, rfl, rfl,
        List.forall_mem_cons.mpr ⟨denotes_of_ofJson? hv, hrows⟩⟩
    next => cases h

end

theorem denoteMap_of_membersOfJson? {ms : List (String × Json)} {fs : List (String × Val)}
    (h : Val.membersOfJson? true ms = some fs) : DenoteMap ms (Fields.ofList fs) := by
  obtain ⟨rows, rfl, rfl, hrows⟩ := rows_of_membersOfJson? h
  exact ⟨Fields.ofList rows, keeps_ofList_rows rows,
    (Fields.map_ofList Prod.snd rows).symm,
    fun r hr => hrows r (counts_iff_mem_ofList.mpr hr).mem⟩

theorem itemsOfJson?_rows {rows : List (Json × Val)}
    (h : ∀ r ∈ rows, Val.ofJson? true r.1 = some r.2) :
    Val.itemsOfJson? true (rows.map fun r => r.1) = some (rows.map fun r => r.2) := by
  induction rows with
  | nil => rfl
  | cons r rows ih =>
    obtain ⟨hr, hrows⟩ := List.forall_mem_cons.mp h
    rw [List.map_cons, Val.itemsOfJson?, hr, ih hrows, List.map_cons]

theorem membersOfJson?_map {members : List (String × Json)} {f : Json → Val}
    (h : ∀ m ∈ members, Val.ofJson? true m.2 = some (f m.2)) :
    Val.membersOfJson? true members = some (members.map fun m => (m.1, f m.2)) := by
  induction members with
  | nil => rfl
  | cons m members ih =>
    obtain ⟨hm, hmembers⟩ := List.forall_mem_cons.mp h
    rw [Val.membersOfJson?, hm, ih hmembers, List.map_cons]

theorem membersOfJson?_rows {members : List (String × Json)} {rows : List (String × Json × Val)}
    (hn : (members.map (·.1)).Nodup) (hk : Keeps members (rows.map fun r => (r.1, r.2.1)))
    (h : ∀ r ∈ rows, Val.ofJson? true r.2.1 = some r.2.2) :
    ∃ fs, Val.membersOfJson? true members = some fs ∧
      Fields.ofList fs = rows.map fun r => (r.1, r.2.2) := by
  -- what a member is read as depends on its JSON alone, so reading maps one function over all
  obtain ⟨f, hf⟩ : ∃ f : Json → Val, ∀ r ∈ rows, f r.2.1 = r.2.2 :=
    ⟨fun j => (Val.ofJson? true j).getD .unit, fun r hr => by simp only [h r hr, Option.getD_some]⟩
  refine ⟨_, membersOfJson?_map (f := f) fun m hm => ?_, ?_⟩
  · have hm := (hk.2 m.1 m.2).mpr ((counts_iff_mem hn).mpr hm)
    obtain ⟨r, hr, he⟩ := List.mem_map.mp hm
    rw [← (Prod.mk.inj he).2, hf r hr, h r hr]
  · rw [← Fields.map_ofList f, keeps_iff.mp hk, List.map_map]
    exact List.map_congr_left fun r hr => congrArg (r.1, ·) (hf r hr)

theorem ofJson?_of_denotes {j : Json} {v : Val} (h : j.Denotes v) (hd : j.Distinct) :
    Val.ofJson? true j = some v := by
  induction h with
  | unit => rfl
  | unitNull h | unitEmpty h | bool h | string h | f64 h =>
    rw [eq_singleton_of_keeps hd.1 h]
    rfl
  | @s64 members n h hlow hhigh =>
    rw [eq_singleton_of_keeps hd.1 h]
    exact if_pos ⟨hlow, Int.le_sub_one_of_lt hhigh⟩
  | list h hrows ih =>
    obtain rfl := eq_singleton_of_keeps hd.1 h
    have hitems := distinctItems_iff.mp hd.2.1
    have hread := itemsOfJson?_rows fun r hr => ih r hr (hitems r.1 (List.mem_map_of_mem hr))
    simp only [Val.ofJson?, hread, Option.map_some]
  | map h hk hrows ih =>
    obtain rfl := eq_singleton_of_keeps hd.1 h
    have hmembers := distinctMembers_iff.mp hd.2.1.2
    obtain ⟨fs, hfs, he⟩ := membersOfJson?_rows hd.2.1.1 hk fun r hr =>
      ih r hr (hmembers _ (hk.mem (List.mem_map_of_mem hr)))
    simp only [Val.ofJson?, hfs, Option.map_some, Val.ofEntries, he]

theorem itemsOfJson?_of_denoteList {items : List Json} {vs : List Val} (h : DenoteList items vs)
    (hd : DistinctItems items) : Val.itemsOfJson? true items = some vs := by
  obtain ⟨rows, rfl, rfl, hrows⟩ := h
  exact itemsOfJson?_rows fun r hr =>
    ofJson?_of_denotes (hrows r hr) (distinctItems_iff.mp hd r.1 (List.mem_map_of_mem hr))

theorem membersOfJson?_of_denoteMap {members : List (String × Json)} {fs : Fields Val}
    (h : DenoteMap members fs)
    (hd : (object members).Distinct) :
    ∃ es, Val.membersOfJson? true members = some es ∧ fs = Fields.ofList es := by
  obtain ⟨rows, hk, rfl, hrows⟩ := h
  obtain ⟨es, hes, he⟩ := membersOfJson?_rows hd.1 hk fun r hr =>
    ofJson?_of_denotes (hrows r hr)
      (distinctMembers_iff.mp hd.2 _ (hk.mem (List.mem_map_of_mem hr)))
  exact ⟨es, hes, he.symm⟩

theorem exists_pairs {α β γ : Type} {f : α → γ} {g : β → γ} {as : List α} {bs : List β}
    (h : as.map f = bs.map g) :
    ∃ ps : List (α × β), as = ps.map (fun p => p.1) ∧ bs = ps.map (fun p => p.2) ∧
      ∀ p ∈ ps, f p.1 = g p.2 := by
  induction as generalizing bs with
  | nil =>
    obtain rfl := List.map_eq_nil_iff.mp h.symm
    exact ⟨[], rfl, rfl, List.forall_mem_nil _⟩
  | cons a as ih =>
    obtain ⟨b, bs, rfl, hb, hbs⟩ := List.map_eq_cons_iff.mp h.symm
    obtain ⟨ps, rfl, rfl, hps⟩ := ih hbs.symm
    exact ⟨(a, b) :: ps, rfl, rfl, List.forall_mem_cons.mpr ⟨hb.symm, hps⟩⟩

section Rows

variable {items : List Json} {fields : List (String × Json)}

theorem denoteList_lastWins {rows : List (Json × Val)} (h : ∀ r ∈ rows, r.1.lastWins.Denotes r.2) :
    DenoteList (lastWinsItems (rows.map fun r => r.1)) (rows.map fun r => r.2) := by
  refine ⟨rows.map fun r => (r.1.lastWins, r.2), ?_, ?_, List.forall_mem_map.mpr h⟩
  · rw [lastWinsItems_eq_map, List.map_map, List.map_map]
    rfl
  · rw [List.map_map]
    rfl

theorem denoteList_of_lastWins {rows : List (Json × Val)}
    (hitems : items.map lastWins = rows.map fun r => r.1)
    (h : ∀ r ∈ rows, ∀ j : Json, j.lastWins = r.1 → j.Denotes r.2) :
    DenoteList items (rows.map fun r => r.2) := by
  obtain ⟨ps, rfl, rfl, hps⟩ := exists_pairs hitems
  refine ⟨ps.map fun p => (p.1, p.2.2), ?_, ?_, List.forall_mem_map.mpr fun p hp => ?_⟩
  · rw [List.map_map]
    rfl
  · rw [List.map_map, List.map_map]
    rfl
  · exact h p.2 (List.mem_map_of_mem hp) p.1 (hps p hp)

theorem denoteMap_lastWins {rows : List (String × Json × Val)}
    (hk : Keeps fields (rows.map fun r => (r.1, r.2.1)))
    (h : ∀ r ∈ rows, r.2.1.lastWins.Denotes r.2.2) :
    DenoteMap (Fields.ofList (lastWinsMembers fields)) (rows.map fun r => (r.1, r.2.2)) := by
  refine ⟨rows.map fun r => (r.1, r.2.1.lastWins, r.2.2), keeps_lastWins.mpr ⟨_, hk, ?_⟩, ?_,
    List.forall_mem_map.mpr h⟩
  · rw [lastWinsMembers_eq_map, List.map_map, List.map_map]
    rfl
  · rw [List.map_map]
    rfl

theorem denoteMap_of_lastWins {rows : List (String × Json × Val)}
    (hk : Keeps (Fields.ofList (lastWinsMembers fields)) (rows.map fun r => (r.1, r.2.1)))
    (h : ∀ r ∈ rows, ∀ j : Json, j.lastWins = r.2.1 → j.Denotes r.2.2) :
    DenoteMap fields (rows.map fun r => (r.1, r.2.2)) := by
  obtain ⟨kept, hkept, he⟩ := keeps_lastWins.mp hk
  rw [lastWinsMembers_eq_map] at he
  obtain ⟨ps, rfl, rfl, hps⟩ := exists_pairs he
  refine ⟨ps.map fun p => (p.1.1, p.1.2, p.2.2.2), ?_, ?_, List.forall_mem_map.mpr fun p hp => ?_⟩
  · rw [List.map_map]
    exact hkept
  · rw [List.map_map, List.map_map]
    exact List.map_congr_left fun p hp => congrArg (·, p.2.2.2) (Prod.mk.inj (hps p hp)).1.symm
  · exact h p.2 (List.mem_map_of_mem hp) p.1.2 (Prod.mk.inj (hps p hp)).2

end Rows

/-- Dropping the members that do not count leaves what the JSON stands for. -/
theorem Denotes.lastWins {j : Json} {v : Val} (h : j.Denotes v) : j.lastWins.Denotes v := by
  induction h with
  | unit => exact .unit
  | unitNull h => exact .unitNull (keeps_lastWins_singleton.mpr ⟨_, h, rfl⟩)
  | unitEmpty h => exact .unitEmpty (keeps_lastWins_singleton.mpr ⟨_, h, rfl⟩)
  | bool h => exact .bool (keeps_lastWins_singleton.mpr ⟨_, h, rfl⟩)
  | s64 h hlow hhigh => exact .s64 (keeps_lastWins_singleton.mpr ⟨_, h, rfl⟩) hlow hhigh
  | f64 h => exact .f64 (keeps_lastWins_singleton.mpr ⟨_, h, rfl⟩)
  | string h => exact .string (keeps_lastWins_singleton.mpr ⟨_, h, rfl⟩)
  | list h hrows ih =>
    obtain ⟨rows, hitems, hvs, hrows⟩ := denoteList_lastWins ih
    rw [hvs]
    exact .list (keeps_lastWins_singleton.mpr ⟨_, h, congrArg array hitems⟩) hrows
  | map h hk hrows ih =>
    obtain ⟨rows, hkeeps, hfs, hrows⟩ := denoteMap_lastWins hk ih
    rw [hfs]
    exact .map (keeps_lastWins_singleton.mpr ⟨_, h, rfl⟩) hkeeps hrows

theorem denotes_of_lastWins {j : Json} {v : Val} (h : j.lastWins.Denotes v) : j.Denotes v := by
  -- the induction is on why `i` stands for the value, for every JSON that leaves `i`
  generalize hj : j.lastWins = i at h
  induction h generalizing j with
  | unit =>
    rw [lastWins_eq_string.mp hj]
    exact .unit
  | unitNull h =>
    obtain ⟨ms, i, rfl, hi, he⟩ := keeps_of_lastWins hj h
    exact .unitNull (lastWins_eq_null.mp he ▸ hi)
  | unitEmpty h =>
    obtain ⟨ms, i, rfl, hi, he⟩ := keeps_of_lastWins hj h
    exact .unitEmpty (lastWins_eq_empty.mp he ▸ hi)
  | bool h =>
    obtain ⟨ms, i, rfl, hi, he⟩ := keeps_of_lastWins hj h
    exact .bool (lastWins_eq_bool.mp he ▸ hi)
  | s64 h hlow hhigh =>
    obtain ⟨ms, i, rfl, hi, he⟩ := keeps_of_lastWins hj h
    exact .s64 (lastWins_eq_number.mp he ▸ hi) hlow hhigh
  | f64 h =>
    obtain ⟨ms, i, rfl, hi, he⟩ := keeps_of_lastWins hj h
    exact .f64 (lastWins_eq_number.mp he ▸ hi)
  | string h =>
    obtain ⟨ms, i, rfl, hi, he⟩ := keeps_of_lastWins hj h
    exact .string (lastWins_eq_string.mp he ▸ hi)
  | list h hrows ih =>
    obtain ⟨ms, i, rfl, hi, he⟩ := keeps_of_lastWins hj h
    obtain ⟨items, rfl, hitems⟩ := lastWins_eq_array.mp he
    obtain ⟨rows, rfl, hvs, hrows⟩ := denoteList_of_lastWins hitems fun r hr _ hj => ih r hr hj
    rw [hvs]
    exact .list hi hrows
  | map h hk hrows ih =>
    obtain ⟨ms, i, rfl, hi, he⟩ := keeps_of_lastWins hj h
    obtain ⟨fields, rfl, rfl⟩ := lastWins_eq_object.mp he
    obtain ⟨rows, hkeeps, hfs, hrows⟩ := denoteMap_of_lastWins hk fun r hr _ hj => ih r hr hj
    rw [hfs]
    exact .map hi hkeeps hrows

theorem denoteList_lastWins_iff {items : List Json} {vs : List Val} :
    DenoteList (lastWinsItems items) vs ↔ DenoteList items vs := by
  constructor
  · rintro ⟨rows, hitems, rfl, hrows⟩
    rw [lastWinsItems_eq_map] at hitems
    exact denoteList_of_lastWins hitems fun r hr j hj => denotes_of_lastWins (hj ▸ hrows r hr)
  · rintro ⟨rows, rfl, rfl, hrows⟩
    exact denoteList_lastWins fun r hr => (hrows r hr).lastWins

theorem denoteMap_lastWins_iff {fields : List (String × Json)} {fs : Fields Val} :
    DenoteMap (Fields.ofList (lastWinsMembers fields)) fs ↔ DenoteMap fields fs := by
  constructor
  · rintro ⟨rows, hk, rfl, hrows⟩
    exact denoteMap_of_lastWins hk fun r hr j hj => denotes_of_lastWins (hj ▸ hrows r hr)
  · rintro ⟨rows, hk, rfl, hrows⟩
    exact denoteMap_lastWins hk fun r hr => (hrows r hr).lastWins

end Json

end PeerMesh
