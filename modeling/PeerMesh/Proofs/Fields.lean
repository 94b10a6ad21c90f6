import Mathlib.Data.List.Sort
import PeerMesh.Fields

namespace PeerMesh

universe u

variable {α : Type u}

namespace Fields

theorem lookup_cons_eq_ite (f : String × α) (fs : Fields α) (k : String) :
    List.lookup k (f :: fs) = if k = f.1 then some f.2 else fs.lookup k := by
  rw [List.lookup_cons]
  by_cases hk : k = f.1
  · simp [hk]
  · have hb : (k == f.1) = false := beq_false_of_ne hk
    simp [hk, hb]

theorem lookup_insert (key : String) (value : α) (fs : Fields α) (k : String) :
    (insert key value fs).lookup k = if k = key then some value else fs.lookup k := by
  induction fs with
  | nil => exact lookup_cons_eq_ite (key, value) [] k
  | cons f fs ih =>
    simp only [insert]
    split
    next => rw [lookup_cons_eq_ite (key, value)]
    next hlt =>
      split
      next hgt =>
        have hne : f.1 ≠ key := fun he => String.lt_irrefl key (he ▸ hgt)
        rw [lookup_cons_eq_ite, ih, lookup_cons_eq_ite]
        by_cases hk : k = f.1
        · rw [if_pos hk, if_pos hk, if_neg (hk ▸ hne)]
        · rw [if_neg hk, if_neg hk]
      next hgt =>
        have hkey : key = f.1 :=
          String.le_antisymm (String.not_lt.mp hgt) (String.not_lt.mp hlt)
        rw [lookup_cons_eq_ite, lookup_cons_eq_ite, hkey]
        by_cases hk : k = f.1
        · rw [if_pos hk, if_pos hk]
        · rw [if_neg hk, if_neg hk, if_neg hk]

theorem lookup_erase (key : String) (fs : Fields α) (k : String) :
    (erase key fs).lookup k = if k = key then none else fs.lookup k := by
  induction fs with
  | nil => simp [erase]
  | cons f fs ih =>
    unfold erase at ih ⊢
    by_cases hf : f.1 = key
    · rw [List.filter_cons_of_neg (by simp [hf]), ih, lookup_cons_eq_ite, hf]
      by_cases hk : k = key
      · rw [if_pos hk, if_pos hk]
      · rw [if_neg hk, if_neg hk, if_neg hk]
    · rw [List.filter_cons_of_pos (by simp [hf]), lookup_cons_eq_ite, ih, lookup_cons_eq_ite]
      by_cases hk : k = f.1
      · rw [if_pos hk, if_pos hk, if_neg (hk ▸ hf)]
      · rw [if_neg hk, if_neg hk]

theorem insert_append_of_lt {key : String} (value : α) {fs : Fields α}
    (h : ∀ f ∈ fs, f.1 < key) : insert key value fs = fs ++ [(key, value)] := by
  induction fs with
  | nil => rfl
  | cons f fs ih =>
    have hf : f.1 < key := h f List.mem_cons_self
    have hnot : ¬key < f.1 := fun hlt => String.lt_irrefl key (String.lt_trans hlt hf)
    rw [insert, if_neg hnot, if_pos hf, ih fun f hm => h f (List.mem_cons_of_mem _ hm),
      List.cons_append]

theorem foldl_insert_of_ascending {done rest : Fields α} (h : Ascending (done ++ rest)) :
    rest.foldl (fun fs e => insert e.1 e.2 fs) done = done ++ rest := by
  induction rest generalizing done with
  | nil => simp
  | cons e rest ih =>
    have hlt : ∀ f ∈ done, f.1 < e.1 :=
      fun f hf => (List.pairwise_append.mp h).2.2 f hf e List.mem_cons_self
    rw [List.append_cons] at h ⊢
    rw [List.foldl_cons, insert_append_of_lt e.2 hlt, ih h]

theorem ofList_of_ascending {fs : Fields α} (h : Ascending fs) : ofList fs = fs := by
  rw [ofList, foldl_insert_of_ascending (show Ascending ([] ++ fs) from h), List.nil_append]

theorem ascending_foldl_insert {done : Fields α} (h : Ascending done)
    (entries : List (String × α)) :
    Ascending (entries.foldl (fun fs e => insert e.1 e.2 fs) done) := by
  induction entries generalizing done with
  | nil => exact h
  | cons e entries ih => exact ih (h.insert e.1 e.2)

theorem ascending_ofList (entries : List (String × α)) : Ascending (ofList entries) :=
  ascending_foldl_insert .nil entries

theorem lookup_foldl_insert (entries : List (String × α)) (done : Fields α) (k : String) :
    (entries.foldl (fun fs e => insert e.1 e.2 fs) done).lookup k =
      (entries.reverse ++ done).lookup k := by
  induction entries generalizing done with
  | nil => rfl
  | cons e entries ih =>
    rw [List.foldl_cons, ih, List.reverse_cons, List.append_assoc, List.singleton_append]
    rw [List.lookup_append, List.lookup_append, lookup_insert, lookup_cons_eq_ite]

theorem lookup_ofList (entries : List (String × α)) (k : String) :
    (ofList entries).lookup k = entries.reverse.lookup k := by
  rw [ofList, lookup_foldl_insert, List.append_nil]

theorem mem_of_lookup {fs : Fields α} {k : String} {v : α} (h : fs.lookup k = some v) :
    (k, v) ∈ fs := by
  induction fs with
  | nil => cases h
  | cons f fs ih =>
    rw [lookup_cons_eq_ite] at h
    by_cases hk : k = f.1
    · rw [if_pos hk] at h
      cases h
      rw [hk]
      exact List.mem_cons_self
    · rw [if_neg hk] at h
      exact List.mem_cons_of_mem _ (ih h)

theorem lookup_of_mem {fs : Fields α} (h : Ascending fs) {k : String} {v : α}
    (hm : (k, v) ∈ fs) : fs.lookup k = some v := by
  induction fs with
  | nil => cases hm
  | cons f fs ih =>
    obtain ⟨hf, hfs⟩ := List.pairwise_cons.mp h
    rw [lookup_cons_eq_ite]
    obtain rfl | hm := List.mem_cons.mp hm
    · exact if_pos rfl
    · have hne : k ≠ f.1 := fun he => String.lt_irrefl k (he ▸ hf (k, v) hm)
      rw [if_neg hne, ih hfs hm]

theorem perm_insert {key : String} (value : α) {fs : Fields α} (h : ∀ f ∈ fs, f.1 ≠ key) :
    (insert key value fs).Perm ((key, value) :: fs) := by
  induction fs with
  | nil => exact .refl _
  | cons f fs ih =>
    obtain ⟨hf, hfs⟩ := List.forall_mem_cons.mp h
    simp only [insert]
    split
    · exact .refl _
    · split
      · exact ((ih hfs).cons f).trans (.swap ..)
      · next hgt hlt =>
        exact absurd (String.le_antisymm (String.not_lt.mp hgt) (String.not_lt.mp hlt)) hf

theorem perm_foldl_insert {done : Fields α} {entries : List (String × α)}
    (h : ((entries ++ done).map (·.1)).Nodup) :
    (entries.foldl (fun fs e => insert e.1 e.2 fs) done).Perm (entries ++ done) := by
  induction entries generalizing done with
  | nil => exact .refl _
  | cons e entries ih =>
    obtain ⟨he, hrest⟩ := List.nodup_cons.mp h
    have hdone : ∀ f ∈ done, f.1 ≠ e.1 := fun f hf heq =>
      he (List.mem_map.mpr ⟨f, List.mem_append_right entries hf, heq⟩)
    have hinsert : (entries ++ insert e.1 e.2 done).Perm (e :: entries ++ done) :=
      ((perm_insert e.2 hdone).append_left entries).trans List.perm_middle
    refine (ih ?_).trans hinsert
    exact ((hinsert.map (·.1)).nodup_iff).mpr h

theorem perm_ofList {entries : List (String × α)} (h : (entries.map (·.1)).Nodup) :
    (ofList entries).Perm entries := by
  rw [← List.append_nil entries] at h
  simpa [ofList] using perm_foldl_insert h

/-- Entries in ascending order are known by what they hold. -/
theorem Ascending.eq_of_mem_iff {fs gs : Fields α} (hf : fs.Ascending) (hg : gs.Ascending)
    (h : ∀ e, e ∈ fs ↔ e ∈ gs) : fs = gs := by
  have : Std.Antisymm fun a b : String × α => a.1 < b.1 :=
    ⟨fun a b hab hba => absurd hba (String.lt_asymm hab)⟩
  have : Std.Irrefl fun a b : String × α => a.1 < b.1 := ⟨fun a => String.lt_irrefl a.1⟩
  exact List.Pairwise.eq_of_mem_iff hf hg h

end Fields

namespace Dict

variable (d : Dict α)

theorem get?_insert (key : String) (value : α) (k : String) :
    (d.insert key value).get? k = if k = key then some value else d.get? k :=
  Fields.lookup_insert key value d.fields k

theorem get?_erase (key : String) (k : String) :
    (d.erase key).get? k = if k = key then none else d.get? k :=
  Fields.lookup_erase key d.fields k

theorem get?_erase_eq_some {key k : String} {v : α} :
    (d.erase key).get? k = some v ↔ k ≠ key ∧ d.get? k = some v := by
  rw [get?_erase]
  by_cases hk : k = key <;> simp [hk]

theorem mem_fields_iff {k : String} {v : α} : (k, v) ∈ d.fields ↔ d.get? k = some v :=
  ⟨Fields.lookup_of_mem d.ascending, Fields.mem_of_lookup⟩

theorem mem_keys_iff {k : String} : k ∈ d.keys ↔ ∃ v, d.get? k = some v := by
  rw [keys, List.mem_map]
  constructor
  · rintro ⟨⟨k, v⟩, hf, rfl⟩
    exact ⟨v, d.mem_fields_iff.mp hf⟩
  · rintro ⟨v, hv⟩
    exact ⟨(k, v), d.mem_fields_iff.mpr hv, rfl⟩

theorem keys_pairwise : d.keys.Pairwise (· < ·) :=
  List.pairwise_map.mpr d.ascending

theorem ext_get? {d e : Dict α} (h : ∀ k, d.get? k = e.get? k) : d = e := by
  have hfields : d.fields = e.fields := by
    refine d.ascending.eq_of_mem_iff e.ascending fun f => ?_
    rw [d.mem_fields_iff, e.mem_fields_iff, h]
  cases d
  cases e
  cases hfields
  rfl

end Dict

end PeerMesh
