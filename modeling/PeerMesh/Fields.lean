namespace PeerMesh

universe u

abbrev Fields (α : Type u) :=
  List (String × α)

namespace Fields

variable {α : Type u}

def Ascending (fs : Fields α) : Prop :=
  fs.Pairwise fun a b => a.1 < b.1

/-- Puts an entry in its place; an entry of that name gives way. -/
def insert (key : String) (value : α) : Fields α → Fields α
  | [] => [(key, value)]
  | (k, v) :: fs =>
    if key < k then (key, value) :: (k, v) :: fs
    else if k < key then (k, v) :: insert key value fs
    else (key, value) :: fs

def erase (key : String) (fs : Fields α) : Fields α :=
  fs.filter fun f => f.1 ≠ key

def ofList (entries : List (String × α)) : Fields α :=
  entries.foldl (fun fs e => insert e.1 e.2 fs) []

theorem mem_insert {key : String} {value : α} {fs : Fields α} {f : String × α}
    (h : f ∈ insert key value fs) : f = (key, value) ∨ f ∈ fs := by
  induction fs with
  | nil => exact .inl (List.mem_singleton.mp h)
  | cons g fs ih =>
    simp only [insert] at h
    split at h
    · exact List.mem_cons.mp h
    · split at h
      · obtain h | h := List.mem_cons.mp h
        · exact .inr (h ▸ List.mem_cons_self)
        · exact (ih h).imp_right (List.mem_cons_of_mem _)
      · exact (List.mem_cons.mp h).imp_right (List.mem_cons_of_mem _)

theorem Ascending.insert {fs : Fields α} (h : Ascending fs) (key : String) (value : α) :
    Ascending (insert key value fs) := by
  induction fs with
  | nil => exact List.pairwise_singleton ..
  | cons g fs ih =>
    obtain ⟨hg, hfs⟩ := List.pairwise_cons.mp h
    simp only [Fields.insert]
    split
    next hlt =>
      exact List.pairwise_cons.mpr ⟨fun f hf => (List.mem_cons.mp hf).elim (fun e => e ▸ hlt)
        fun hf => String.lt_trans hlt (hg f hf), h⟩
    next hlt =>
      split
      next hgt =>
        exact List.pairwise_cons.mpr ⟨fun f hf => (mem_insert hf).elim (fun e => e ▸ hgt) (hg f),
          ih hfs⟩
      next hgt =>
        have hkey : key = g.1 :=
          String.le_antisymm (String.not_lt.mp hgt) (String.not_lt.mp hlt)
        exact List.pairwise_cons.mpr ⟨fun f hf => hkey ▸ hg f hf, hfs⟩

theorem Ascending.erase {fs : Fields α} (h : Ascending fs) (key : String) :
    Ascending (erase key fs) :=
  List.Pairwise.filter _ h

end Fields

/-- A table by name. -/
structure Dict (α : Type u) where
  fields : Fields α
  ascending : fields.Ascending

namespace Dict

variable {α : Type u}

def empty : Dict α :=
  ⟨[], .nil⟩

instance : Inhabited (Dict α) :=
  ⟨empty⟩

def insert (d : Dict α) (key : String) (value : α) : Dict α :=
  ⟨d.fields.insert key value, d.ascending.insert key value⟩

def erase (d : Dict α) (key : String) : Dict α :=
  ⟨d.fields.erase key, d.ascending.erase key⟩

def get? (d : Dict α) (key : String) : Option α :=
  d.fields.lookup key

def contains (d : Dict α) (key : String) : Bool :=
  (d.get? key).isSome

def keys (d : Dict α) : List String :=
  d.fields.map (·.1)

def size (d : Dict α) : Nat :=
  d.fields.length

def ofList (entries : List (String × α)) : Dict α :=
  entries.foldl (fun d e => d.insert e.1 e.2) empty

end Dict

end PeerMesh
