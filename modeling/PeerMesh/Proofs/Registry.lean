import Mathlib.Data.List.Induction
import PeerMesh.Proofs.Bytes
import PeerMesh.Proofs.Fields
import PeerMesh.Registry

namespace PeerMesh.Registry

/-- Registration `i` is `op` under that name, and no later one has the name. -/
structure IsLatest (ops : List (String × Operation)) (name : String) (i : Nat) (op : Operation) :
    Prop where
  here : ops[i]? = some (name, op)
  last : ∀ j o, i < j → ops[j]? = some o → o.1 ≠ name

def withBodies (ops : List (String × Operation)) (bodies : Nat → List Val → Ending) :
    List (String × Operation) :=
  ops.mapIdx fun i o => (o.1, ⟨o.2.arity, bodies i⟩)

/-- An invocation runs the body of registration `i`, with `args`: whatever the bodies are, the
outcome is what comes of that one. -/
def Runs (ops : List (String × Operation)) (name : String) (args : List Val) (i : Nat) : Prop :=
  ∀ bodies, (ofList (withBodies ops bodies)).invoke name args = (bodies i args).outcome

variable {ops : List (String × Operation)} {name : String} {args : List Val} {i : Nat}
  {op : Operation}

theorem ofList_concat (ops : List (String × Operation)) (o : String × Operation) :
    ofList (ops ++ [o]) = (ofList ops).register o.1 o.2 := by
  simp [ofList]

theorem operation?_register (r : Registry) (name : String) (op : Operation) (k : String) :
    (r.register name op).operation? k = if k = name then some op else r.operation? k :=
  r.operations.get?_insert name op k

namespace IsLatest

theorem concat (ops : List (String × Operation)) (name : String) (op : Operation) :
    IsLatest (ops ++ [(name, op)]) name ops.length op where
  here := by simp
  last j o hj ho := by
    have hlen := (List.getElem?_eq_some_iff.mp ho).1
    rw [List.length_append, List.length_singleton] at hlen
    omega

theorem concat_of_ne (h : IsLatest ops name i op) {o : String × Operation} (ho : o.1 ≠ name) :
    IsLatest (ops ++ [o]) name i op where
  here := by
    rw [List.getElem?_append_left (List.getElem?_eq_some_iff.mp h.here).1]
    exact h.here
  last j p hj hp := by
    rw [List.getElem?_append] at hp
    split at hp
    · exact h.last j p hj hp
    · have hmem := List.mem_of_getElem? hp
      rw [List.mem_singleton.mp hmem]
      exact ho

theorem unique (h : IsLatest ops name i op) {j : Nat} {op' : Operation}
    (h' : IsLatest ops name j op') : i = j ∧ op = op' := by
  obtain hlt | rfl | hgt := Nat.lt_trichotomy i j
  · exact absurd rfl (h.last j _ hlt h'.here)
  · have hboth := h.here.symm.trans h'.here
    cases hboth
    exact ⟨rfl, rfl⟩
  · exact absurd rfl (h'.last i _ hgt h.here)

theorem withBodies_iff {bodies : Nat → List Val → Ending} {op' : Operation} :
    IsLatest (withBodies ops bodies) name i op' ↔
      ∃ op, IsLatest ops name i op ∧ op' = ⟨op.arity, bodies i⟩ := by
  constructor
  · rintro ⟨here, last⟩
    rw [withBodies, List.getElem?_mapIdx] at here
    obtain ⟨⟨k, op⟩, hop, he⟩ := Option.map_eq_some_iff.mp here
    cases he
    refine ⟨op, ⟨hop, fun j o hj ho => ?_⟩, rfl⟩
    exact last j (o.1, ⟨o.2.arity, bodies j⟩) hj (by simp [withBodies, ho])
  · rintro ⟨op, h, rfl⟩
    refine ⟨by simp [withBodies, h.here], fun j o hj ho => ?_⟩
    rw [withBodies, List.getElem?_mapIdx] at ho
    obtain ⟨p, hp, rfl⟩ := Option.map_eq_some_iff.mp ho
    exact h.last j p hj hp

end IsLatest

theorem operation?_cases (ops : List (String × Operation)) (name : String) :
    ((ofList ops).operation? name = none ∧ ∀ o ∈ ops, o.1 ≠ name) ∨
    ∃ i op, (ofList ops).operation? name = some op ∧ IsLatest ops name i op := by
  induction ops using List.reverseRecOn with
  | nil => exact .inl ⟨rfl, by simp⟩
  | append_singleton ops o ih =>
    rw [ofList_concat, operation?_register]
    by_cases ho : name = o.1
    · rw [if_pos ho, ho]
      exact .inr ⟨ops.length, o.2, rfl, .concat ops o.1 o.2⟩
    · rw [if_neg ho]
      obtain ⟨hnone, hops⟩ | ⟨i, op, hop, hlatest⟩ := ih
      · refine .inl ⟨hnone, fun p hp => ?_⟩
        obtain hp | hp := List.mem_append.mp hp
        · exact hops p hp
        · rw [List.mem_singleton.mp hp]
          exact Ne.symm ho
      · exact .inr ⟨i, op, hop, hlatest.concat_of_ne (Ne.symm ho)⟩

theorem IsLatest.operation? (h : IsLatest ops name i op) :
    (ofList ops).operation? name = some op := by
  obtain ⟨-, hnot⟩ | ⟨j, op', hop, h'⟩ := operation?_cases ops name
  · exact absurd rfl (hnot _ (List.mem_of_getElem? h.here))
  · rw [hop, (h.unique h').2]

/-- A call is of an unknown name, has the wrong number of arguments, or is run, and the check says
which. -/
theorem call_cases (ops : List (String × Operation)) (name : String) (args : List Val) :
    ((name ≠ "" → (ofList ops).validate name args = .error (.unknownOperation name)) ∧
      (ofList ops).invoke name args = .error (.methodNotFound name)) ∨
    (∃ expected,
      (name ≠ "" →
        (ofList ops).validate name args = .error (.arityMismatch name expected args.length)) ∧
      (ofList ops).invoke name args = .error (.badArgumentCount expected args.length)) ∨
    (∃ i op, IsLatest ops name i op ∧ op.arity = args.length ∧
      (name ≠ "" → (ofList ops).validate name args = .ok ()) ∧
      (ofList ops).invoke name args = (op.body args).outcome) := by
  obtain ⟨hnone, -⟩ | ⟨i, op, hop, hlatest⟩ := operation?_cases ops name
  · refine .inl ⟨fun hname => ?_, ?_⟩
    · simp [validate, arity?, hname, hnone]
    · simp [invoke, hnone]
  · by_cases harity : op.arity = args.length
    · refine .inr (.inr ⟨i, op, hlatest, harity, fun hname => ?_, ?_⟩)
      · simp [validate, arity?, hname, hop, harity]
      · simp [invoke, hop, harity]
    · refine .inr (.inl ⟨op.arity, fun hname => ?_, ?_⟩)
      · simp [validate, arity?, hname, hop, harity]
      · simp [invoke, hop, harity]

theorem runs_iff :
    Runs ops name args i ↔ ∃ op, IsLatest ops name i op ∧ op.arity = args.length := by
  constructor
  · intro hruns
    -- No other body ends like that of registration `i`.
    let bodies : Nat → List Val → Ending := fun j _ => .value (.bool (j = i))
    have hi : (ofList (withBodies ops bodies)).invoke name args = .ok (.bool true) := by
      simp [hruns bodies, bodies, Ending.outcome]
    obtain ⟨-, hinvoke⟩ | ⟨expected, -, hinvoke⟩ |
      ⟨j, op', hlatest, harity, -, hinvoke⟩ := call_cases (withBodies ops bodies) name args
    · rw [hinvoke] at hi
      cases hi
    · rw [hinvoke] at hi
      cases hi
    · obtain ⟨op, hop, rfl⟩ := IsLatest.withBodies_iff.mp hlatest
      rw [hinvoke] at hi
      have hj : j = i := by simpa [bodies, Ending.outcome] using hi
      exact ⟨op, hj ▸ hop, harity⟩
  · rintro ⟨op, hlatest, harity⟩ bodies
    have hsame : IsLatest (withBodies ops bodies) name i ⟨op.arity, bodies i⟩ :=
      IsLatest.withBodies_iff.mpr ⟨op, hlatest, rfl⟩
    simp [invoke, hsame.operation?, harity]

theorem Runs.outcome (h : Runs ops name args i) :
    ∃ op, IsLatest ops name i op ∧ op.arity = args.length ∧
      (ofList ops).invoke name args = (op.body args).outcome := by
  obtain ⟨op, hlatest, harity⟩ := runs_iff.mp h
  exact ⟨op, hlatest, harity, by simp [invoke, hlatest.operation?, harity]⟩

theorem outcome_ne_methodNotFound (e : Ending) (name : String) :
    e.outcome ≠ .error (.methodNotFound name) := by
  cases e <;> simp [Ending.outcome]

theorem outcome_ne_badArgumentCount (e : Ending) (expected found : Nat) :
    e.outcome ≠ .error (.badArgumentCount expected found) := by
  cases e <;> simp [Ending.outcome]

theorem mem_names_iff (ops : List (String × Operation)) (name : String) :
    name ∈ (ofList ops).names ↔ ∃ o ∈ ops, o.1 = name := by
  rw [names, Dict.mem_keys_iff]
  obtain ⟨hnone, hops⟩ | ⟨i, op, hop, hlatest⟩ := operation?_cases ops name
  · constructor
    · rintro ⟨op, hop⟩
      cases hnone.symm.trans hop
    · rintro ⟨o, ho, he⟩
      exact absurd he (hops o ho)
  · exact iff_of_true ⟨op, hop⟩ ⟨(name, op), List.mem_of_getElem? hlatest.here, rfl⟩

theorem names_pairwise (r : Registry) : r.names.Pairwise (fun a b => utf8 a < utf8 b) :=
  r.operations.keys_pairwise.imp utf8_lt_of_lt

/-- Checking a call and running it agree, whatever was registered in which order. -/
theorem validation_agrees (ops : List (String × Operation)) (name : String) (args : List Val) :
    let r := ofList ops
    (name = "" → r.validate name args = .error .emptyName) ∧
    (name ≠ "" →
      (r.validate name args = .ok () ↔ ∃ i, Runs ops name args i) ∧
      (r.validate name args = .error (.unknownOperation name) ↔
        r.invoke name args = .error (.methodNotFound name)) ∧
      ∀ expected found, r.validate name args = .error (.arityMismatch name expected found) ↔
        r.invoke name args = .error (.badArgumentCount expected found)) ∧
    (∀ i, Runs ops name args i →
      ∃ op, IsLatest ops name i op ∧ op.arity = args.length ∧
        r.invoke name args =
          match op.body args with
          | .value v => .ok v
          | .failure message => .error (.operationFailed message)
          | .panic text => .error (.panicked (text.getD "non-string panic payload"))) ∧
    r.names.Pairwise (fun a b => utf8 a < utf8 b) ∧
    ∀ n, n ∈ r.names ↔ ∃ o ∈ ops, o.1 = n := by
  intro r
  refine ⟨fun hname => ?_, fun hname => ?_, fun i hruns => ?_, names_pairwise r,
    mem_names_iff ops⟩
  · rw [hname, validate, if_pos rfl]
  · obtain ⟨hvalidate, hinvoke⟩ | ⟨expected, hvalidate, hinvoke⟩ |
      ⟨i, op, hlatest, harity, hvalidate, hinvoke⟩ := call_cases ops name args
    · have hnot : ¬∃ i, Runs ops name args i := by
        rintro ⟨i, hruns⟩
        obtain ⟨op, -, -, hbody⟩ := hruns.outcome
        exact outcome_ne_methodNotFound _ _ (hbody.symm.trans hinvoke)
      simp [r, hvalidate hname, hinvoke, hnot]
    · have hnot : ¬∃ i, Runs ops name args i := by
        rintro ⟨i, hruns⟩
        obtain ⟨op, -, -, hbody⟩ := hruns.outcome
        exact outcome_ne_badArgumentCount _ _ _ (hbody.symm.trans hinvoke)
      simp [r, hvalidate hname, hinvoke, hnot]
    · have hruns : ∃ i, Runs ops name args i := ⟨i, runs_iff.mpr ⟨op, hlatest, harity⟩⟩
      simp [r, hvalidate hname, hinvoke, hruns, outcome_ne_methodNotFound,
        outcome_ne_badArgumentCount]
  · obtain ⟨op, hlatest, harity, hbody⟩ := hruns.outcome
    refine ⟨op, hlatest, harity, hbody.trans ?_⟩
    cases op.body args <;> rfl

def overlaid : List (String × Operation) :=
  [("put", ⟨1, fun _ => .value .unit⟩), ("", ⟨0, fun _ => .failure "nameless"⟩),
    ("put", ⟨2, fun _ => .panic none⟩)]

theorem validation_agrees_overlaid :
    (ofList overlaid).names = ["", "put"] ∧
    (ofList overlaid).validate "put" [.unit, .unit] = .ok () ∧
    Runs overlaid "put" [.unit, .unit] 2 ∧
    (ofList overlaid).invoke "put" [.unit, .unit] =
      .error (.panicked "non-string panic payload") ∧
    (ofList overlaid).invoke "put" [.unit] = .error (.badArgumentCount 2 1) ∧
    (ofList overlaid).validate "" [] = .error .emptyName ∧
    (ofList overlaid).invoke "" [] = .error (.operationFailed "nameless") := by
  have hlatest : IsLatest overlaid "put" 2 ⟨2, fun _ => .panic none⟩ :=
    .concat (overlaid.take 2) "put" _
  have hput : (ofList overlaid).validate "put" [.unit, .unit] = .ok () := by decide +kernel
  have hfew : (ofList overlaid).validate "put" [.unit] = .error (.arityMismatch "put" 2 1) := by
    decide +kernel
  obtain ⟨-, hagree, hbody, -⟩ := validation_agrees overlaid "put" [.unit, .unit]
  obtain ⟨-, hagreeFew, -⟩ := validation_agrees overlaid "put" [.unit]
  obtain ⟨hempty, -⟩ := validation_agrees overlaid "" []
  obtain ⟨i, hruns⟩ := (hagree (by decide)).1.mp hput
  obtain ⟨op, hop, -, hinvoke⟩ := hbody i hruns
  obtain ⟨rfl, rfl⟩ := hop.unique hlatest
  exact ⟨by decide +kernel, hput, hruns, hinvoke, ((hagreeFew (by decide)).2.2 2 1).mp hfew,
    hempty rfl, rfl⟩

end PeerMesh.Registry
