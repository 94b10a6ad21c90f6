import PeerMesh.Json.Compact
import PeerMesh.Proofs.Layout

namespace PeerMesh.Json

/-- Numbers and strings are in a form that the scanner reads to their end. -/
def Scalar.Legible : Scalar → Prop
  | number n => n.WellFormed
  | string body => ∀ rest, scanBody [] .plain (body ++ 0x22 :: rest) = some (body, rest)
  | _ => True

theorem Scalar.Legible.text {s : Scalar} (h : s.Legible) : ScalarText s s.bytes := by
  cases s with
  | null => exact .null
  | bool b => cases b <;> constructor
  | number n => exact .number (numeralText_chars h)
  | string body =>
    obtain ⟨t, ht, rfl, -⟩ := goes_of_scanBody (h [])
    exact .string ht

namespace Written

mutual

def Legible : Written → Prop
  | scalar s => s.Legible
  | array items => LegibleItems items
  | object members => LegibleMembers members

def LegibleItems : List Written → Prop
  | [] => True
  | w :: ws => w.Legible ∧ LegibleItems ws

def LegibleMembers : List (Bytes × Written) → Prop
  | [] => True
  | (name, w) :: ms => (Scalar.string name).Legible ∧ w.Legible ∧ LegibleMembers ms

end

/-- The texts of a value: its tokens in their order, with any blanks. -/
def Text (w : Written) (bs : Bytes) : Prop :=
  Layout w.tokens bs

theorem separated_mark {t : Token} (ht : ¬t.IsScalar) {ts : List Token} (h : Separated ts) :
    Separated (t :: ts) :=
  List.isChain_cons.mpr ⟨fun _ _ => .inl ht, h⟩

theorem separated_scalar (s : Scalar) {ts : List Token} (h : Separated ts)
    (hm : ∀ t ∈ ts.head?, ¬t.IsScalar) : Separated (.scalar s :: ts) :=
  List.isChain_cons.mpr ⟨fun t ht => .inr (hm t ht), h⟩

theorem head_furtherItems (ws : List Written) (ts : List Token) :
    ∀ t ∈ (furtherItems ws ++ .closeArray :: ts).head?, ¬t.IsScalar := by
  cases ws <;> simp [furtherItems, Token.IsScalar]

theorem head_furtherMembers (ms : List (Bytes × Written)) (ts : List Token) :
    ∀ t ∈ (furtherMembers ms ++ .closeObject :: ts).head?, ¬t.IsScalar := by
  cases ms <;> simp [furtherMembers, Token.IsScalar]

mutual

theorem separated_tokens (w : Written) {ts : List Token} (h : Separated ts)
    (hm : ∀ t ∈ ts.head?, ¬t.IsScalar) : Separated (w.tokens ++ ts) := by
  cases w with
  | scalar s =>
    rw [tokens]
    exact separated_scalar s h hm
  | array items =>
    cases items with
    | nil =>
      rw [tokens]
      exact separated_mark id (separated_mark id h)
    | cons w ws =>
      simp only [tokens, List.cons_append, List.append_assoc, List.nil_append]
      exact separated_mark id
        (separated_tokens w (separated_furtherItems ws h) (head_furtherItems ws ts))
  | object members =>
    cases members with
    | nil =>
      rw [tokens]
      exact separated_mark id (separated_mark id h)
    | cons m ms =>
      obtain ⟨name, w⟩ := m
      simp only [tokens, List.cons_append, List.append_assoc, List.nil_append]
      have hw := separated_tokens w (separated_furtherMembers ms h) (head_furtherMembers ms ts)
      exact separated_mark id
        (separated_scalar _ (separated_mark id hw) (by simp [Token.IsScalar]))

theorem separated_furtherItems (ws : List Written) {ts : List Token} (h : Separated ts) :
    Separated (furtherItems ws ++ .closeArray :: ts) := by
  cases ws with
  | nil => exact separated_mark id h
  | cons w ws =>
    simp only [furtherItems, List.cons_append, List.append_assoc]
    exact separated_mark id
      (separated_tokens w (separated_furtherItems ws h) (head_furtherItems ws ts))

theorem separated_furtherMembers (ms : List (Bytes × Written)) {ts : List Token}
    (h : Separated ts) : Separated (furtherMembers ms ++ .closeObject :: ts) := by
  cases ms with
  | nil => exact separated_mark id h
  | cons m ms =>
    obtain ⟨name, w⟩ := m
    simp only [furtherMembers, List.cons_append, List.append_assoc]
    have hw := separated_tokens w (separated_furtherMembers ms h) (head_furtherMembers ms ts)
    exact separated_mark id (separated_scalar _ (separated_mark id hw) (by simp [Token.IsScalar]))

end

theorem start_openArray {stack : List Frame} {t : Token} {ts : List Token}
    (h : t ≠ .closeArray) :
    start stack (.openArray :: t :: ts) = start (.items [] :: stack) (t :: ts) :=
  start.eq_3 _ _ fun _ he => h (List.cons.inj he).1

theorem exists_tokens_cons (w : Written) :
    ∃ t ts, w.tokens = t :: ts ∧ t ≠ .closeArray ∧ t ≠ .closeObject := by
  cases w with
  | scalar s => exact ⟨_, _, by rw [tokens], by simp, by simp⟩
  | array items => cases items <;> exact ⟨_, _, by rw [tokens], by simp, by simp⟩
  | object members => cases members <;> exact ⟨_, _, by rw [tokens], by simp, by simp⟩

mutual

/-- Reading the tokens of a value goes on behind the complete value. -/
theorem start_tokens (w : Written) (stack : List Frame) (ts : List Token) :
    start stack (w.tokens ++ ts) = finish stack w ts := by
  cases w with
  | scalar s => rw [tokens, List.singleton_append, start]
  | array items =>
    cases items with
    | nil => rw [tokens, List.cons_append, List.singleton_append, start]
    | cons w ws =>
      obtain ⟨t, us, hw, ht, -⟩ := exists_tokens_cons w
      have hstart : start stack ((array (w :: ws)).tokens ++ ts) =
          start (.items [] :: stack)
            (w.tokens ++ (furtherItems ws ++ .closeArray :: ts)) := by
        simp only [tokens, hw, List.cons_append, List.append_assoc, List.nil_append]
        exact start_openArray ht
      rw [hstart, start_tokens w, finish_furtherItems ws]
      simp
  | object members =>
    cases members with
    | nil => rw [tokens, List.cons_append, List.singleton_append, start]
    | cons m ms =>
      obtain ⟨name, w⟩ := m
      have hstart : start stack ((object ((name, w) :: ms)).tokens ++ ts) =
          start (.members [] name :: stack)
            (w.tokens ++ (furtherMembers ms ++ .closeObject :: ts)) := by
        simp only [tokens, List.cons_append, List.append_assoc, List.nil_append]
        rw [start]
      rw [hstart, start_tokens w, finish_furtherMembers ms]
      simp

theorem finish_furtherItems (ws : List Written) (w : Written) (stack : List Frame)
    (done : List Written) (ts : List Token) :
    finish (.items done :: stack) w (furtherItems ws ++ .closeArray :: ts) =
      finish stack (.array (done.reverse ++ w :: ws)) ts := by
  cases ws with
  | nil => rw [furtherItems, List.nil_append, finish, List.reverse_cons]
  | cons v ws =>
    rw [furtherItems, List.cons_append, List.append_assoc, finish, start_tokens v,
      finish_furtherItems ws]
    simp

theorem finish_furtherMembers (ms : List (Bytes × Written)) (name : Bytes) (w : Written)
    (stack : List Frame) (done : List (Bytes × Written)) (ts : List Token) :
    finish (.members done name :: stack) w (furtherMembers ms ++ .closeObject :: ts) =
      finish stack (.object (done.reverse ++ (name, w) :: ms)) ts := by
  cases ms with
  | nil => rw [furtherMembers, List.nil_append, finish, List.reverse_cons]
  | cons m ms =>
    obtain ⟨other, v⟩ := m
    rw [furtherMembers, List.cons_append, List.cons_append, List.cons_append, List.append_assoc,
      finish, start_tokens v, finish_furtherMembers ms]
    simp

end

def itemsTokens : List Written → List Token
  | [] => []
  | w :: ws => w.tokens ++ furtherItems ws

def memberTokens (m : Bytes × Written) : List Token :=
  .scalar (.string m.1) :: .colon :: m.2.tokens

def membersTokens : List (Bytes × Written) → List Token
  | [] => []
  | m :: ms => memberTokens m ++ furtherMembers ms

theorem tokens_array (items : List Written) :
    (array items).tokens = .openArray :: (itemsTokens items ++ [.closeArray]) := by
  cases items <;> simp [tokens, itemsTokens]

theorem tokens_object (members : List (Bytes × Written)) :
    (object members).tokens = .openObject :: (membersTokens members ++ [.closeObject]) := by
  cases members <;> simp [tokens, membersTokens, memberTokens]

theorem itemsTokens_append (done : List Written) (w : Written) :
    itemsTokens (done ++ [w]) = done.flatMap (fun v => v.tokens ++ [.comma]) ++ w.tokens := by
  induction done with
  | nil => simp [itemsTokens, furtherItems]
  | cons v done ih =>
    have hfurther : furtherItems (done ++ [w]) = .comma :: itemsTokens (done ++ [w]) := by
      cases done <;> rfl
    rw [List.cons_append, itemsTokens, hfurther, ih]
    simp

theorem membersTokens_append (done : List (Bytes × Written)) (m : Bytes × Written) :
    membersTokens (done ++ [m]) =
      done.flatMap (fun n => memberTokens n ++ [.comma]) ++ memberTokens m := by
  induction done with
  | nil => simp [membersTokens, furtherMembers]
  | cons n done ih =>
    have hfurther : furtherMembers (done ++ [m]) = .comma :: membersTokens (done ++ [m]) := by
      cases done <;> rfl
    rw [List.cons_append, membersTokens, hfurther, ih]
    simp

/-- The tokens of what is complete of a container, and of the name that is still due a value. -/
def Frame.tokens : Frame → List Token
  | items done => .openArray :: done.reverse.flatMap fun w => w.tokens ++ [.comma]
  | members done name =>
    .openObject :: (done.reverse.flatMap (fun m => memberTokens m ++ [.comma]) ++
      [.scalar (.string name), .colon])

def opened : List Frame → List Token
  | [] => []
  | f :: stack => opened stack ++ f.tokens

theorem tokens_items (done : List Written) (w : Written) :
    (array (w :: done).reverse).tokens =
      Frame.tokens (.items done) ++ (w.tokens ++ [.closeArray]) := by
  rw [tokens_array, List.reverse_cons, itemsTokens_append]
  simp [Frame.tokens]

theorem tokens_members (done : List (Bytes × Written)) (name : Bytes) (w : Written) :
    (object ((name, w) :: done).reverse).tokens =
      Frame.tokens (.members done name) ++ (w.tokens ++ [.closeObject]) := by
  rw [tokens_object, List.reverse_cons, membersTokens_append]
  simp [Frame.tokens, memberTokens]

mutual

theorem tokens_of_start {stack : List Frame} {ts : List Token} {w : Written}
    (h : start stack ts = some w) : w.tokens = opened stack ++ ts := by
  unfold start at h
  split at h
  next s ts => exact tokens_of_finish h
  next ts => exact tokens_of_finish h
  next ts _ =>
    rw [tokens_of_start h]
    simp [opened, Frame.tokens]
  next ts => exact tokens_of_finish h
  next name ts =>
    rw [tokens_of_start h]
    simp [opened, Frame.tokens]
  next => cases h
termination_by ts.length

theorem tokens_of_finish {stack : List Frame} {v : Written} {ts : List Token} {w : Written}
    (h : finish stack v ts = some w) : w.tokens = opened stack ++ (v.tokens ++ ts) := by
  unfold finish at h
  split at h
  next =>
    split at h
    next =>
      cases h
      simp [opened]
    next => cases h
  next t ts =>
    split at h
    next done stack ts =>
      rw [tokens_of_start h]
      simp [opened, Frame.tokens]
    next done stack ts =>
      rw [tokens_of_finish h, tokens_items]
      simp [opened]
    next done name stack name' ts =>
      rw [tokens_of_start h]
      simp [opened, Frame.tokens, memberTokens]
    next done name stack ts =>
      rw [tokens_of_finish h, tokens_members]
      simp [opened]
    next => cases h
termination_by ts.length

end

/-- Taking a text apart gives the value that it is a text of. -/
theorem ofBytes?_eq_some_iff {bs : Bytes} {w : Written} : ofBytes? bs = some w ↔ w.Text bs := by
  rw [ofBytes?, Option.bind_eq_some_iff]
  constructor
  · rintro ⟨ts, ht, hs⟩
    have hw := tokens_of_start hs
    rw [opened, List.nil_append] at hw
    rw [Text, hw]
    exact layout_of_tokens? ht
  · intro h
    have hsep : Separated (w.tokens ++ []) := separated_tokens w .nil (by simp)
    have hs := start_tokens w [] []
    rw [List.append_nil] at hsep hs
    exact ⟨w.tokens, h.tokens? hsep, hs⟩

theorem tokenText_name {name : Bytes} (h : (Scalar.string name).Legible) :
    TokenText (.scalar (.string name)) (Token.scalar (.string name)).bytes :=
  .scalar h.text

mutual

theorem tokenText_tokens {w : Written} (h : w.Legible) : ∀ t ∈ w.tokens, TokenText t t.bytes := by
  cases w with
  | scalar s =>
    rw [tokens]
    exact List.forall_mem_singleton.mpr (.scalar (Scalar.Legible.text h))
  | array items =>
    cases items with
    | nil =>
      simp only [tokens, List.forall_mem_cons]
      exact ⟨.mark rfl, .mark rfl, List.forall_mem_nil _⟩
    | cons w ws =>
      rw [Legible, LegibleItems] at h
      simp only [tokens, List.forall_mem_cons, List.forall_mem_append]
      exact ⟨.mark rfl, tokenText_tokens h.1, tokenText_furtherItems h.2, .mark rfl,
        List.forall_mem_nil _⟩
  | object members =>
    cases members with
    | nil =>
      simp only [tokens, List.forall_mem_cons]
      exact ⟨.mark rfl, .mark rfl, List.forall_mem_nil _⟩
    | cons m ms =>
      rw [Legible, LegibleMembers] at h
      simp only [tokens, List.forall_mem_cons, List.forall_mem_append]
      exact ⟨.mark rfl, tokenText_name h.1, .mark rfl, tokenText_tokens h.2.1,
        tokenText_furtherMembers h.2.2, .mark rfl,
        List.forall_mem_nil _⟩

theorem tokenText_furtherItems {ws : List Written} (h : LegibleItems ws) :
    ∀ t ∈ furtherItems ws, TokenText t t.bytes := by
  cases ws with
  | nil => exact List.forall_mem_nil _
  | cons w ws =>
    rw [LegibleItems] at h
    simp only [furtherItems, List.forall_mem_cons, List.forall_mem_append]
    exact ⟨.mark rfl, tokenText_tokens h.1, tokenText_furtherItems h.2⟩

theorem tokenText_furtherMembers {ms : List (Bytes × Written)} (h : LegibleMembers ms) :
    ∀ t ∈ furtherMembers ms, TokenText t t.bytes := by
  cases ms with
  | nil => exact List.forall_mem_nil _
  | cons m ms =>
    rw [LegibleMembers] at h
    simp only [furtherMembers, List.forall_mem_cons, List.forall_mem_append]
    exact ⟨.mark rfl, tokenText_name h.1, .mark rfl, tokenText_tokens h.2.1,
      tokenText_furtherMembers h.2.2⟩

end

theorem layout_bytes {ts : List Token} (h : ∀ t ∈ ts, TokenText t t.bytes) :
    Layout ts (ts.flatMap Token.bytes) := by
  induction ts with
  | nil => exact .nil
  | cons t ts ih =>
    obtain ⟨ht, hts⟩ := List.forall_mem_cons.mp h
    exact .token ht (ih hts)

theorem ofBytes?_bytes {w : Written} (h : w.Legible) : ofBytes? w.bytes = some w :=
  ofBytes?_eq_some_iff.mpr (layout_bytes (tokenText_tokens h))

end Written

end PeerMesh.Json
