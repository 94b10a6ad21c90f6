import PeerMesh.Proofs.Store.Requests
import PeerMesh.Store.Handles

namespace PeerMesh

/-- Stores, and the entries that were taken out of them, each with the place of its store. In all of
them recipes may be nested `depth` deep. -/
structure Holdings where
  stores : Stores
  kept : List (Nat × Entry)
  depth : Nat

namespace Holdings

/-- An entry that was taken out of a store can be resolved at any later time. -/
inductive Act
  | new (handle : String)
  | withDefaults (handle : String) (membership : Option Membership)
  | clone (handle new : String)
  | ask (handle : String) (q : Request)
  | resolveKept (i : Nat) (view : View)

inductive Record
  | made (handle : String)
  | cloned (handle new : String)
  | asked (handle : String) (q : Request) (edits : List Edit) (answer : Answer)
  | resolvedKept (i : Nat) (edits : List Edit) (result : Except String Val)

def empty (depth : Nat) : Holdings :=
  ⟨⟨[], .empty⟩, [], depth⟩

def taken? : Request → Answer → Option Entry
  | .get _, .entry e? => e?
  | _, _ => none

def perform : Act → Holdings → Holdings × List Record
  | .new handle, w => ({ w with stores := w.stores.add handle (.empty w.depth) }, [.made handle])
  | .withDefaults handle membership, w =>
    ({ w with stores := w.stores.add handle (.withDefaults membership w.depth) },
      [.asked handle (.installDefaults membership)
        ((Request.installDefaults membership).edits (.empty w.depth)) .done, .made handle])
  | .clone handle new, w =>
    match w.stores.handles.get? handle with
    | none => (w, [])
    | some _ => ({ w with stores := w.stores.clone handle new }, [.cloned handle new])
  | .ask handle q, w =>
    match w.stores.handles.get? handle, w.stores.store? handle with
    | some place, some s =>
      let (answer, t) := q.perform s
      ({ w with
         stores := w.stores.modify handle fun _ => t
         kept := w.kept ++ ((taken? q answer).map (place, ·)).toList },
        [.asked handle q (q.edits s) answer])
    | _, _ => (w, [])
  | .resolveKept i view, w =>
    match w.kept[i]? with
    | none => (w, [])
    | some (place, e) =>
      match w.stores.stores[place]? with
      | none => (w, [])
      | some s =>
        let (result, t) := e.resolve view s
        ({ w with stores := { w.stores with stores := w.stores.stores.set place t } },
          [.resolvedKept i (e.editsWithin view (s.depth + 1) s) result])

def run (acts : List Act) (w : Holdings) (past : List Record) : Holdings × List Record :=
  acts.foldl (fun p d => ((perform d p.1).1, (perform d p.1).2 ++ p.2)) (w, past)

def made : List Record → Nat
  | [] => 0
  | .made _ :: past => made past + 1
  | .cloned .. :: past | .asked .. :: past | .resolvedKept .. :: past => made past

/-- The store of a handle, by how many were made before it. -/
def storeOf? (handle : String) : List Record → Option Nat
  | [] => none
  | .made h :: past => if handle = h then some (made past) else storeOf? handle past
  | .cloned h new :: past => if handle = new then storeOf? h past else storeOf? handle past
  | .asked .. :: past | .resolvedKept .. :: past => storeOf? handle past

/-- The entries that were taken out, each with the store that it comes from. -/
def takenFrom : List Record → List (Option Nat × Entry)
  | [] => []
  | .asked handle q _ answer :: past =>
    takenFrom past ++ ((taken? q answer).map (storeOf? handle past, ·)).toList
  | .made _ :: past | .cloned .. :: past | .resolvedKept .. :: past => takenFrom past

/-- All edits of a store, through whichever handle or entry. -/
def editsOf (n : Nat) : List Record → List Edit
  | [] => []
  | .asked handle _ edits _ :: past =>
    editsOf n past ++ if storeOf? handle past = some n then edits else []
  | .resolvedKept i edits _ :: past =>
    editsOf n past ++ if (takenFrom past)[i]?.map (·.1) = some (some n) then edits else []
  | .made _ :: past | .cloned .. :: past => editsOf n past

end Holdings

def Edit.entryAfter (key : String) (e? : Option Entry) : Edit → Option Entry
  | insert k e => if key = k then some e else e?
  | remove k => if key = k then none else e?
  | save .. | allocate _ => e?

/-- The entry that was written last under a key, unless it was removed since. -/
def lastWritten (key : String) (edits : List Edit) : Option Entry :=
  edits.foldl (Edit.entryAfter key) none

theorem Store.get?_apply (s : Store) (e : Edit) (key : String) :
    (e.apply s).get? key = e.entryAfter key (s.get? key) := by
  cases e with
  | insert k e => exact s.get?_insert k e key
  | remove k => exact s.get?_remove k key
  | save | allocate => rfl

theorem Store.get?_edited (s : Store) (edits : List Edit) (key : String) :
    (s.edited edits).get? key = edits.foldl (Edit.entryAfter key) (s.get? key) := by
  induction edits generalizing s with
  | nil => rfl
  | cons e edits ih => exact (ih (e.apply s)).trans (by rw [s.get?_apply]; rfl)

namespace Holdings

/-- The holdings are what their history says. -/
structure Tracks (w : Holdings) (past : List Record) : Prop where
  handles : ∀ handle, w.stores.handles.get? handle = storeOf? handle past
  stores : ∀ n, w.stores.stores[n]? =
    if n < made past then some ((Store.empty w.depth).edited (editsOf n past)) else none
  kept : w.kept.map (fun k => (some k.1, k.2)) = takenFrom past

theorem storeOf?_lt {handle : String} {past : List Record} {n : Nat}
    (h : storeOf? handle past = some n) : n < made past := by
  induction past generalizing handle with
  | nil => cases h
  | cons d past ih =>
    cases d with
    | made new =>
      rw [storeOf?] at h
      rw [made]
      split at h
      · cases h
        exact Nat.lt_succ_self _
      · exact Nat.lt_succ_of_lt (ih h)
    | cloned old new =>
      rw [storeOf?] at h
      split at h
      · exact ih h
      · exact ih h
    | asked | resolvedKept => exact ih h

theorem takenFrom_lt {past : List Record} {n : Nat} {e : Entry} (h : (some n, e) ∈ takenFrom past) :
    n < made past := by
  induction past with
  | nil => cases h
  | cons d past ih =>
    cases d with
    | made new => exact Nat.lt_succ_of_lt (ih h)
    | cloned | resolvedKept => exact ih h
    | asked handle q edits answer =>
      obtain h | h := List.mem_append.mp h
      · exact ih h
      · rw [Option.mem_toList, Option.map_eq_some_iff] at h
        obtain ⟨e', -, he⟩ := h
        exact storeOf?_lt (congrArg Prod.fst he)

theorem editsOf_of_le {n : Nat} {past : List Record} (h : made past ≤ n) : editsOf n past = [] := by
  induction past with
  | nil => rfl
  | cons d past ih =>
    cases d with
    | made new => exact ih (Nat.le_of_succ_le h)
    | cloned => exact ih h
    | asked handle q edits answer =>
      have hne : storeOf? handle past ≠ some n :=
        fun hn => absurd (storeOf?_lt hn) (Nat.not_lt.mpr h)
      rw [editsOf, ih h, if_neg hne]
      rfl
    | resolvedKept i edits result =>
      have hne : (takenFrom past)[i]?.map (·.1) ≠ some (some n) := by
        intro hn
        obtain ⟨⟨home, e⟩, hi, rfl⟩ := Option.map_eq_some_iff.mp hn
        exact absurd (takenFrom_lt (List.mem_of_getElem? hi)) (Nat.not_lt.mpr h)
      rw [editsOf, ih h, if_neg hne]
      rfl

namespace Tracks

variable {w : Holdings} {past : List Record}

theorem start (depth : Nat) : Tracks (empty depth) [] where
  handles _ := rfl
  stores _ := rfl
  kept := rfl

theorem length (h : Tracks w past) : w.stores.stores.length = made past := by
  have hend := h.stores w.stores.stores.length
  have hmade := h.stores (made past)
  rw [if_neg (Nat.lt_irrefl _), List.getElem?_eq_none_iff] at hmade
  rw [List.getElem?_eq_none (Nat.le_refl _)] at hend
  split at hend
  · cases hend
  · omega

theorem new (h : Tracks w past) (handle : String) :
    Tracks { w with stores := w.stores.add handle (.empty w.depth) } (.made handle :: past) where
  handles k := by
    rw [Stores.add, Dict.get?_insert, storeOf?, h.length, h.handles]
  stores n := by
    rw [Stores.add, made, editsOf]
    dsimp only
    obtain hlt | rfl | hgt := Nat.lt_trichotomy n (made past)
    · rw [List.getElem?_append_left (h.length ▸ hlt), h.stores, if_pos hlt,
        if_pos (Nat.lt_succ_of_lt hlt)]
    · rw [← h.length, List.getElem?_concat_length, if_pos (Nat.lt_succ_self _), h.length,
        editsOf_of_le (Nat.le_refl _), Store.edited_nil]
    · rw [if_neg (by omega), List.getElem?_eq_none_iff, List.length_append, h.length]
      exact hgt
  kept := h.kept

theorem write (h : Tracks w past) {n : Nat} {s : Store} (hs : w.stores.stores[n]? = some s)
    {d : Record} {edits : List Edit} {kept : List (Nat × Entry)}
    (hhandles : ∀ k, storeOf? k (d :: past) = storeOf? k past)
    (hmade : made (d :: past) = made past)
    (hedits : ∀ m, editsOf m (d :: past) = editsOf m past ++ if n = m then edits else [])
    (hkept : kept.map (fun k => (some k.1, k.2)) = takenFrom (d :: past)) :
    Tracks ⟨{ w.stores with stores := w.stores.stores.set n (s.edited edits) }, kept, w.depth⟩
      (d :: past) where
  handles k := (h.handles k).trans (hhandles k).symm
  stores m := by
    have hsame := h.stores m
    rw [hmade, hedits]
    dsimp only
    by_cases hm : n = m
    · subst hm
      rw [hs] at hsame
      rw [if_pos rfl, Store.edited_append,
        List.getElem?_set_self (List.getElem?_eq_some_iff.mp hs).1]
      split at hsame
      · next hlt =>
        rw [if_pos hlt, ← Option.some.inj hsame]
      · cases hsame
    · rw [if_neg hm, List.append_nil, List.getElem?_set_ne hm]
      exact hsame
  kept := hkept

theorem withDefaults (h : Tracks w past) (handle : String) (membership : Option Membership) :
    Tracks { w with stores := w.stores.add handle (.withDefaults membership w.depth) }
      (.asked handle (.installDefaults membership)
        ((Request.installDefaults membership).edits (.empty w.depth)) .done ::
          .made handle :: past) := by
  have hlast : (w.stores.add handle (.empty w.depth)).stores[made past]? =
      some (.empty w.depth) := by
    rw [Stores.add, ← h.length]
    exact List.getElem?_concat_length
  have hset : w.stores.add handle (.withDefaults membership w.depth) =
      { w.stores.add handle (.empty w.depth) with
        stores := (w.stores.add handle (.empty w.depth)).stores.set (made past)
          ((Store.empty w.depth).edited
            ((Request.installDefaults membership).edits (.empty w.depth))) } := by
    rw [← Store.installDefaults_edited, ← h.length]
    simp [Stores.add, Store.withDefaults]
  rw [hset]
  refine (h.new handle).write hlast (fun _ => rfl) rfl (fun m => ?_) ?_
  · simp [editsOf, storeOf?]
  · simpa [takenFrom, taken?] using h.kept

theorem clone (h : Tracks w past) {handle : String} {place : Nat}
    (hplace : w.stores.handles.get? handle = some place) (new : String) :
    Tracks { w with stores := w.stores.clone handle new } (.cloned handle new :: past) where
  handles k := by
    rw [Stores.clone, hplace]
    dsimp only
    rw [Dict.get?_insert, storeOf?, ← h.handles handle, hplace, h.handles]
  stores := by
    rw [Stores.clone, hplace]
    exact h.stores
  kept := h.kept

theorem ask (h : Tracks w past) {handle : String} {place : Nat} {s : Store}
    (hplace : w.stores.handles.get? handle = some place)
    (hs : w.stores.store? handle = some s) (q : Request) :
    Tracks
      { w with
        stores := w.stores.modify handle fun _ => (q.perform s).2
        kept := w.kept ++ ((taken? q (q.perform s).1).map (place, ·)).toList }
      (.asked handle q (q.edits s) (q.perform s).1 :: past) := by
  have hget : w.stores.stores[place]? = some s := by
    rw [Stores.store?, hplace] at hs
    exact hs
  have hset : w.stores.modify handle (fun _ => (q.perform s).2) =
      { w.stores with stores := w.stores.stores.set place (s.edited (q.edits s)) } := by
    rw [Stores.modify, hplace, ← q.perform_edited, List.set_eq_modify]
  have hhome := (h.handles handle).symm.trans hplace
  rw [hset]
  refine h.write hget (fun _ => rfl) rfl (fun m => ?_) ?_
  · simp [editsOf, hhome]
  · rw [List.map_append, h.kept, takenFrom, hhome]
    cases taken? q (q.perform s).1 <;> rfl

theorem resolveKept (h : Tracks w past) {i place : Nat} {e : Entry} {s : Store}
    (hkept : w.kept[i]? = some (place, e)) (hs : w.stores.stores[place]? = some s) (view : View) :
    Tracks { w with stores := { w.stores with
        stores := w.stores.stores.set place (e.resolve view s).2 } }
      (.resolvedKept i (e.editsWithin view (s.depth + 1) s) (e.resolve view s).1 :: past) := by
  have hhome : (takenFrom past)[i]? = some (some place, e) := by
    rw [← h.kept, List.getElem?_map, hkept]
    rfl
  have hedited : (e.resolve view s).2 = s.edited (e.editsWithin view (s.depth + 1) s) :=
    e.resolveWithin_edited view (s.depth + 1) s
  rw [hedited]
  refine h.write hs (fun _ => rfl) rfl (fun m => ?_) h.kept
  simp [editsOf, hhome]

theorem perform (h : Tracks w past) (d : Act) :
    Tracks (perform d w).1 ((perform d w).2 ++ past) := by
  cases d with
  | new handle => exact h.new handle
  | withDefaults handle membership => exact h.withDefaults handle membership
  | clone handle new =>
    rw [Holdings.perform]
    cases hplace : w.stores.handles.get? handle with
    | none => exact h
    | some place => exact h.clone hplace new
  | ask handle q =>
    rw [Holdings.perform]
    split
    · next place s hplace hs => exact h.ask hplace hs q
    · exact h
  | resolveKept i view =>
    rw [Holdings.perform]
    cases hkept : w.kept[i]? with
    | none => exact h
    | some k =>
      obtain ⟨place, e⟩ := k
      dsimp only
      cases hs : w.stores.stores[place]? with
      | none => exact h
      | some s => exact h.resolveKept hkept hs view

theorem run (h : Tracks w past) (acts : List Act) :
    Tracks (run acts w past).1 (run acts w past).2 := by
  induction acts generalizing w past with
  | nil => exact h
  | cons d acts ih => exact ih (h.perform d)

end Tracks

end Holdings

end PeerMesh
