import PeerMesh.Proofs.Interpreter.Responses

namespace PeerMesh

variable {ν : Type}

/-- The emitters of an interpreter are those that were made, and its outbox holds the responses
that were let through and are not `gone`. -/
structure Books (i : Interpreter) (gone : List Command) (past : List (Remark ν)) : Prop where
  shapes : ∀ n : Nat, i.emitters[n]?.map Emitter.shape = shapeOf? n past
  fired : ∀ (n : Nat) (e : Emitter), i.emitters[n]? = some e →
    e.fired = past.any (Remark.isEmission n)
  known : ∀ n, past.any (Remark.isEmission n) → n < i.emitters.length
  outbox : responses [] past = gone ++ i.outbox
  inTurn : InTurn [] past

namespace Books

variable {i j : Interpreter} {gone : List Command} {past : List (Remark ν)}

theorem start (he : i.emitters = []) (ho : i.outbox = []) : Books i [] ([] : List (Remark ν)) where
  shapes n := by rw [he]; rfl
  fired n e h := by
    rw [he] at h
    cases h
  known n h := by cases h
  outbox := by rw [ho]; rfl
  inTurn := trivial

theorem congr (h : Books i gone past) (he : j.emitters = i.emitters) (ho : j.outbox = i.outbox) :
    Books j gone past where
  shapes := by rw [he]; exact h.shapes
  fired := by rw [he]; exact h.fired
  known := by rw [he]; exact h.known
  outbox := by rw [ho]; exact h.outbox
  inTurn := h.inTurn

theorem inert (h : Books i gone past) {log : List (Remark ν)} (hlog : ∀ r ∈ log, r.isInert) :
    Books i gone (past ++ log) where
  shapes n := by rw [shapeOf?_append, shapeOf?_of_isInert hlog, Option.or_none, h.shapes]
  fired n e he := by
    rw [List.any_append, any_isEmission_of_isInert hlog, Bool.or_false, h.fired n e he]
  known n hn := by
    rw [List.any_append, any_isEmission_of_isInert hlog, Bool.or_false] at hn
    exact h.known n hn
  outbox := by rw [responses_append, responses_of_isInert hlog, List.append_nil, h.outbox]
  inTurn := inTurn_append.mpr ⟨h.inTurn, inTurn_of_isInert hlog _⟩

theorem forward (h : Books i gone past) {c : Command} {rest : List Command}
    (hc : i.outbox = c :: rest) (he : j.emitters = i.emitters) (ho : j.outbox = rest) :
    Books j (gone ++ [c]) past where
  shapes := by rw [he]; exact h.shapes
  fired := by rw [he]; exact h.fired
  known := by rw [he]; exact h.known
  outbox := by rw [h.outbox, hc, ho, List.append_assoc, List.singleton_append]
  inTurn := h.inTurn

theorem newEmitter (h : Books i gone past) (job : JobId) (shape : ResponseShape) :
    Books (i.newEmitter shape).2 gone
      (past ++ [.mapping (i.newEmitter shape).1 job shape]) where
  shapes n := by
    have hn := h.shapes n
    rw [shapeOf?_append, ← hn]
    rw [Interpreter.newEmitter]
    dsimp only
    rw [shapeOf?, List.getElem?_append]
    split
    · next hlt =>
      rw [List.getElem?_eq_getElem hlt]
      rfl
    · next hge =>
      rw [List.getElem?_eq_none (Nat.not_lt.mp hge)]
      by_cases heq : i.emitters.length = n
      · subst heq
        rw [if_pos rfl, Nat.sub_self]
        rfl
      · rw [if_neg heq, List.getElem?_eq_none]
        · rfl
        · rw [List.length_singleton]
          omega
  fired n e he := by
    rw [any_isEmission_mapping]
    rw [Interpreter.newEmitter] at he
    dsimp only at he
    rw [List.getElem?_append] at he
    split at he
    · exact h.fired n e he
    · next hge =>
      have hfalse : e.fired = false := by
        obtain ⟨hlt, hget⟩ := List.getElem?_eq_some_iff.mp he
        rw [List.getElem_singleton] at hget
        rw [← hget]
      rw [hfalse]
      exact (Bool.eq_false_iff.mpr fun hn => hge (h.known n hn)).symm
  known n hn := by
    rw [any_isEmission_mapping] at hn
    rw [Interpreter.newEmitter]
    dsimp only
    rw [List.length_append]
    exact Nat.lt_of_lt_of_le (h.known n hn) (Nat.le_add_right _ _)
  outbox := by
    rw [responses_append, h.outbox]
    exact List.append_nil _
  inTurn := by
    refine h.inTurn.add ?_
    rw [Remark.Follows, ← h.shapes, Interpreter.newEmitter, List.getElem?_eq_none (Nat.le_refl _)]
    rfl

variable {n : Nat} {e : Emitter}

theorem letsThrough (h : Books i gone past) (he : i.emitters[n]? = some e) :
    PeerMesh.letsThrough past n = !(e.shape = .once && e.fired) := by
  have hshape := h.shapes n
  rw [he, Option.map_some] at hshape
  rw [PeerMesh.letsThrough, ← hshape, h.fired n e he]
  cases e.shape with
  | stream => rfl
  | once => rfl

theorem follows (h : Books i gone past) (he : i.emitters[n]? = some e) (job : JobId)
    (key : String) (v : Val) (queued : Bool) :
    InTurn [] (past ++ [.emitted n job key v queued]) := by
  refine h.inTurn.add ?_
  rw [Remark.Follows, ← h.shapes, he]
  rfl

/-- Only the first response of an emitter that is not for a stream is let through. -/
theorem silent (h : Books i gone past) (he : i.emitters[n]? = some e)
    (hsilent : (e.shape = .once && e.fired) = true) (job : JobId) (key : String) (v : Val) :
    Books i gone (past ++ [.emitted n job key v false]) where
  shapes m := by
    rw [shapeOf?_append, ← h.shapes]
    exact (Option.or_none).symm
  fired m e' he' := by
    rw [any_isEmission_emitted, ← h.fired m e' he']
    by_cases hm : n = m
    · subst hm
      cases he.symm.trans he'
      rw [(Bool.and_eq_true_iff.mp hsilent).2]
      rfl
    · rw [beq_false_of_ne hm, Bool.or_false]
  known m hm := by
    rw [any_isEmission_emitted, Bool.or_eq_true] at hm
    obtain hm | hm := hm
    · exact h.known m hm
    · exact beq_iff_eq.mp hm ▸ (List.getElem?_eq_some_iff.mp he).1
  outbox := by
    rw [← List.nil_append past, List.append_assoc, List.nil_append, responses_emitted,
      List.nil_append, h.letsThrough he, hsilent, h.outbox]
    exact List.append_nil _
  inTurn := h.follows he job key v false

theorem answer (h : Books i gone past) (he : i.emitters[n]? = some e)
    (hlets : (e.shape = .once && e.fired) = false) (job : JobId) (key : String) (v : Val) :
    Books
      { i with
        emitters := i.emitters.set n { e with fired := true }
        outbox := i.outbox ++ [Command.response job key v] }
      gone (past ++ [.emitted n job key v true]) where
  shapes m := by
    rw [shapeOf?_append, ← h.shapes, List.getElem?_set]
    by_cases hm : n = m
    · subst hm
      rw [if_pos rfl, if_pos (List.getElem?_eq_some_iff.mp he).1, he]
      rfl
    · rw [if_neg hm]
      exact (Option.or_none).symm
  fired m e' he' := by
    rw [List.getElem?_set] at he'
    rw [any_isEmission_emitted]
    by_cases hm : n = m
    · subst hm
      rw [if_pos rfl, if_pos (List.getElem?_eq_some_iff.mp he).1] at he'
      cases he'
      rw [BEq.rfl, Bool.or_true]
    · rw [if_neg hm] at he'
      rw [beq_false_of_ne hm, Bool.or_false, h.fired m e' he']
  known m hm := by
    rw [any_isEmission_emitted, Bool.or_eq_true] at hm
    rw [List.length_set]
    obtain hm | hm := hm
    · exact h.known m hm
    · exact beq_iff_eq.mp hm ▸ (List.getElem?_eq_some_iff.mp he).1
  outbox := by
    rw [← List.nil_append past, List.append_assoc, List.nil_append, responses_emitted,
      List.nil_append, h.letsThrough he, hlets, h.outbox]
    exact List.append_assoc ..
  inTurn := h.follows he job key v true

theorem emit (h : Books i gone past) (ho : i.isOpen) (he : i.emitters[n]? = some e) (job : JobId)
    (key : String) (v : Val) :
    Books (i.emit n job key v).2 gone (past ++ [.emitted n job key v (i.emit n job key v).1]) := by
  rw [Interpreter.emit, he]
  dsimp only
  split
  · next hsilent => exact h.silent he hsilent job key v
  · next hlets =>
    split
    · exact h.answer he (Bool.eq_false_iff.mpr hlets) job key v
    · next hclosed => exact absurd ho hclosed

end Books

theorem Interpreter.Resembles.isOpen {i j : Interpreter} (h : Resembles i j) :
    i.isOpen = j.isOpen := by
  rw [Interpreter.isOpen, h.pump, Interpreter.isOpen]

theorem Interpreter.length_emitters_emit (i : Interpreter) (n : Nat) (job : JobId) (key : String)
    (v : Val) : (i.emit n job key v).2.emitters.length = i.emitters.length := by
  rw [emit]
  split
  · rfl
  · split
    · rfl
    · dsimp only
      split
      · exact List.length_set
      · exact List.length_set

theorem Interpreter.newEmitter_lt (i : Interpreter) (shape : ResponseShape) :
    (i.newEmitter shape).1 < (i.newEmitter shape).2.emitters.length := by
  rw [newEmitter]
  dsimp only
  rw [List.length_append]
  exact Nat.lt_succ_self _

variable (view : View) {gone : List Command} {past : List (Remark ν)}

theorem Script.run_books {emitter : Nat} (job : JobId) (script : Script) {s : Site ν}
    (hb : Books s.interpreter gone past) (ho : s.interpreter.isOpen)
    (hn : emitter < s.interpreter.emitters.length) :
    Books (script.run view emitter job s).2.1.interpreter gone
      (past ++ (script.run view emitter job s).2.2) := by
  induction script generalizing s past with
  | done | fail message | panic =>
    refine hb.inert fun r hr => ?_
    cases hr
  | emit target key v next ih =>
    have he := List.getElem?_eq_getElem hn
    have hb' := hb.emit ho he target key v
    have hrest := ih (s.interpreter.emit emitter target key v).1
      (s := { s with interpreter := (s.interpreter.emit emitter target key v).2 }) hb'
      ((Interpreter.Resembles.emit s.interpreter emitter target key v).isOpen.trans ho)
      (by rw [Interpreter.length_emitters_emit]; exact hn)
    rw [List.append_assoc, List.singleton_append] at hrest
    exact hrest
  | resolve key next ih =>
    rw [run]
    split
    · refine hb.inert fun r hr => ?_
      cases hr
    · exact ih _ hb ho hn
  | insert key v next ih | insertRecipe key r next ih | remove key next ih => exact ih hb ho hn
  | retain slot next ih =>
    have hkept : ∀ r ∈ [Remark.kept slot emitter job], Remark.isInert (ν := ν) r := by
      intro r hr
      cases List.mem_singleton.mp hr
      rfl
    have hrest := ih (hb.inert hkept) ho hn
    rw [List.append_assoc, List.singleton_append] at hrest
    exact hrest

namespace Site

variable {s : Site ν}

theorem receiveCustom_books (hb : Books s.interpreter gone past) (ho : s.interpreter.isOpen)
    (job : JobId) (key mapper : String) (shape : ResponseShape) :
    Books (s.receiveCustom view job key mapper shape).2.1.interpreter gone
      (past ++ (s.receiveCustom view job key mapper shape).2.2) := by
  obtain ⟨-, store, h⟩ | ⟨-, script, store, h⟩ := s.receiveCustom_cases view job key mapper shape
  · rw [h, List.append_nil]
    exact hb
  · have hrun := Script.run_books view job script
      (s := ⟨(s.interpreter.newEmitter shape).2, store, s.hub⟩) (hb.newEmitter job shape) ho
      (s.interpreter.newEmitter_lt shape)
    rw [List.append_assoc, List.singleton_append] at hrun
    rw [h]
    exact hrun

theorem isInert_emit (event : Event) : ∀ r ∈ (s.emit event).2, r.isInert := by
  intro r hr
  obtain ⟨m, -, rfl⟩ := List.mem_map.mp hr
  rfl

theorem isInert_receiveUnicast (s : Site ν) (sender : PeerId) (payload : Bytes) :
    ∀ r ∈ (s.receiveUnicast sender payload).2.2, r.isInert := by
  rw [receiveUnicast]
  split
  · exact fun r hr => by cases hr
  · exact s.isInert_emit _
  · exact fun r hr => by cases hr

theorem receiveBroadcast_books (hb : Books s.interpreter gone past) (ho : s.interpreter.isOpen)
    (payload : Bytes) :
    Books (s.receiveBroadcast view payload).2.1.interpreter gone
      (past ++ (s.receiveBroadcast view payload).2.2) := by
  cases hd : s.decode payload with
  | error e =>
    rw [receiveBroadcast, hd]
    exact hb.inert fun r hr => by cases hr
  | ok c =>
    cases c with
    | custom job key mapper shape =>
      rw [receiveBroadcast_custom view hd]
      exact receiveCustom_books view hb ho job key mapper shape
    | rpc | customResponse =>
      rw [receiveBroadcast, hd]
      exact hb.inert (s.isInert_emit _)

end Site

end PeerMesh
