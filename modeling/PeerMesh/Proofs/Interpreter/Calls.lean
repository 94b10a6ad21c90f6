import PeerMesh.Proofs.Interpreter.Handover

namespace PeerMesh

inductive Call (ν : Type)
  | broadcast (name : String) (args : List Val)
  | unicast (target : PeerId) (name : String) (args : List Val)
  | custom (key mapper : String) (shape : ResponseShape)
  | mapReduce (key mapper : String) (shape : ResponseShape) (reducer : Reducer ν)

inductive Ack
  | sent (s : Sent)
  | job (j : JobId)
  | reducing (m : MapReduce)

namespace Call

variable {ν σ : Type}

def perform (link : Link σ) : Call ν → Site ν → σ → Except CallError Ack × Site ν × σ
  | broadcast name args, s, w =>
    let (r, i, w) := s.interpreter.executeBroadcast link name args w
    (r.map .sent, { s with interpreter := i }, w)
  | unicast target name args, s, w =>
    let (r, w) := s.interpreter.executeUnicast link name args target w
    (r.map .sent, s, w)
  | custom key mapper shape, s, w =>
    let (r, s, w) := s.executeCustom link key mapper shape w
    (r.map .job, s, w)
  | mapReduce key mapper shape reducer, s, w =>
    let (r, s, w) := s.mapReduce link key mapper shape reducer w
    (r.map .reducing, s, w)

def validateTexts (key mapper : String) : Except ValidationError Unit :=
  if key = "" then .error .emptyKey else if mapper = "" then .error .emptyName else .ok ()

/-- Why a custom command is not handed to a transport. -/
def customObstacle? (key mapper : String) (shape : ResponseShape) (limit : Nat) (job : JobId) :
    Option CallError :=
  match validateTexts key mapper with
  | .error e => some (.validation e)
  | .ok () => ((Command.custom job key mapper shape).unfit? limit).map .codec

def validate : Call ν → Interpreter → Except ValidationError Unit
  | broadcast name args, i => i.registry.validate name args
  | unicast _ name args, i => i.registry.validate name args
  | custom key mapper _, _ => validateTexts key mapper
  | mapReduce key mapper _ _, _ => validateTexts key mapper

def commandFor : Call ν → JobId → Command
  | broadcast name args, _ => .rpc name args
  | unicast _ name args, _ => .rpc name args
  | custom key mapper shape, job => .custom job key mapper shape
  | mapReduce key mapper shape _, job => .custom job key mapper shape

def command (call : Call ν) (i : Interpreter) : Command :=
  call.commandFor i.jobIds.next.1

def addressing : Call ν → Interpreter → Addressing
  | unicast target _ _, _ => .unicast target
  | _, i => .broadcast i.clock.peek

def acknowledged (call : Call ν) : Ack → Command
  | .sent s => s.command
  | .job j => call.commandFor j
  | .reducing m => call.commandFor m.job

def jobIdsAfter : Call ν → JobIds → JobIds
  | custom .., ids => ids.next.2
  | mapReduce .., ids => ids.next.2
  | _, ids => ids

def clockAfter : Call ν → VersionVector → VersionVector
  | unicast .., c => c
  | _, c => c.commit c.peek

/-- Why the command of a call is not handed to a transport. -/
def obstacle? (call : Call ν) (i : Interpreter) : Option CallError :=
  match call.validate i with
  | .error e => some (.validation e)
  | .ok () => ((call.command i).unfit? i.maxPayload).map .codec

/-- The first failure of a call. Unless there is an obstacle, it is that of a transport. -/
def failure? (call : Call ν) (i : Interpreter) (handed : List Handover) : Option CallError :=
  match call.obstacle? i with
  | some e => some e
  | none => (handed.findSome? Handover.failure?).map .transport

def handover (call : Call ν) (i : Interpreter) (result : Except TransportError Unit) : Handover :=
  ⟨(call.command i).enveloped, call.addressing i, result⟩

/-- Nothing has changed but the generator of job identifiers and the number of the next
subscription. -/
structure Spares (call : Call ν) (s t : Site ν) : Prop where
  interpreter : t.interpreter =
    { s.interpreter with jobIds := call.jobIdsAfter s.interpreter.jobIds }
  store : t.store = s.store
  hub : t.hub = { s.hub with next := t.hub.next }

/-- A call meets an obstacle, or it is handed to its transport and the answer decides. -/
inductive Meets (link : Link σ) (call : Call ν) (s : Site ν) (w : σ) :
    Except CallError Ack → Site ν → σ → Prop
  | obstacle (e : CallError) {t : Site ν} (ho : call.obstacle? s.interpreter = some e)
    (hi : t.interpreter = { s.interpreter with jobIds := call.jobIdsAfter s.interpreter.jobIds })
    (hstore : t.store = s.store) : Meets link call s w (.error e) t w
  | refused (e : TransportError) {t : Site ν} {v : σ} (ho : call.obstacle? s.interpreter = none)
    (hand : link.hand (call.command s.interpreter).enveloped (call.addressing s.interpreter) w =
      (.error e, v))
    (hi : t.interpreter = { s.interpreter with jobIds := call.jobIdsAfter s.interpreter.jobIds })
    (hstore : t.store = s.store) : Meets link call s w (.error (.transport e)) t v
  | accepted (a : Ack) {t : Site ν} {v : σ} (ho : call.obstacle? s.interpreter = none)
    (hand : link.hand (call.command s.interpreter).enveloped (call.addressing s.interpreter) w =
      (.ok (), v))
    (hack : call.acknowledged a = call.command s.interpreter)
    (hi : t.interpreter =
      { s.interpreter with
        jobIds := call.jobIdsAfter s.interpreter.jobIds
        clock := call.clockAfter s.interpreter.clock }) :
    Meets link call s w (.ok a) t v

theorem obstacle?_of_error {call : Call ν} {i : Interpreter} {e : ValidationError}
    (h : call.validate i = .error e) : call.obstacle? i = some (.validation e) := by
  rw [obstacle?, h]

theorem obstacle?_of_ok {call : Call ν} {i : Interpreter} (h : call.validate i = .ok ()) :
    call.obstacle? i = ((call.command i).unfit? i.maxPayload).map .codec := by
  rw [obstacle?, h]

variable (link : Link σ)

theorem meets_broadcast (name : String) (args : List Val) (s : Site ν) (w : σ) :
    let done := (broadcast name args).perform link s w
    (broadcast name args).Meets link s w done.1 done.2.1 done.2.2 := by
  dsimp only
  rw [perform, Interpreter.executeBroadcast]
  cases hv : s.interpreter.registry.validate name args with
  | error e => exact .obstacle _ (obstacle?_of_error hv) rfl rfl
  | ok u =>
    have hvalid : (broadcast (ν := ν) name args).validate s.interpreter = .ok () := hv
    have ho := obstacle?_of_ok hvalid
    dsimp only
    obtain ⟨e, hu, h⟩ | ⟨e, v, hu, hb, h⟩ | ⟨v, hu, hb, h⟩ :=
      s.interpreter.sendBroadcast_handed link (.rpc name args) w
    · rw [h]
      exact .obstacle _ (ho.trans (congrArg _ hu)) rfl rfl
    · rw [h]
      exact .refused _ (ho.trans (congrArg _ hu)) hb rfl rfl
    · rw [h]
      exact .accepted _ (ho.trans (congrArg _ hu)) hb rfl rfl

theorem meets_unicast (target : PeerId) (name : String) (args : List Val) (s : Site ν) (w : σ) :
    let done := (unicast target name args).perform link s w
    (unicast target name args).Meets link s w done.1 done.2.1 done.2.2 := by
  dsimp only
  rw [perform, Interpreter.executeUnicast]
  cases hv : s.interpreter.registry.validate name args with
  | error e => exact .obstacle _ (obstacle?_of_error hv) rfl rfl
  | ok u =>
    have hvalid : (unicast (ν := ν) target name args).validate s.interpreter = .ok () := hv
    have ho := obstacle?_of_ok hvalid
    dsimp only
    obtain ⟨e, hu, h⟩ | ⟨e, v, hu, hb, h⟩ | ⟨v, hu, hb, h⟩ :=
      s.interpreter.sendUnicast_handed link (.rpc name args) w target
    · rw [h]
      exact .obstacle _ (ho.trans (congrArg _ hu)) rfl rfl
    · rw [h]
      exact .refused _ (ho.trans (congrArg _ hu)) hb rfl rfl
    · rw [h]
      exact .accepted _ (ho.trans (congrArg _ hu)) hb rfl rfl

theorem sendCustom_handed (key mapper : String) (shape : ResponseShape) (t : Site ν) (job : JobId)
    (w : σ) :
    (∃ e, customObstacle? key mapper shape t.interpreter.maxPayload job = some e ∧
      t.sendCustom link job key mapper shape w = (.error e, t, w)) ∨
    (∃ e v, customObstacle? key mapper shape t.interpreter.maxPayload job = none ∧
      link.hand (Command.custom job key mapper shape).enveloped
        (.broadcast t.interpreter.clock.peek) w = (.error e, v) ∧
      t.sendCustom link job key mapper shape w = (.error (.transport e), t, v)) ∨
    (∃ sent v, customObstacle? key mapper shape t.interpreter.maxPayload job = none ∧
      link.hand (Command.custom job key mapper shape).enveloped
        (.broadcast t.interpreter.clock.peek) w = (.ok (), v) ∧
      t.sendCustom link job key mapper shape w = (.ok sent,
        { t with
          interpreter := { t.interpreter with
            clock := t.interpreter.clock.commit t.interpreter.clock.peek }
          store := t.store.recordJob job key }, v)) := by
  rw [customObstacle?, validateTexts, Site.sendCustom]
  by_cases hkey : key = ""
  · rw [if_pos hkey, if_pos hkey]
    exact .inl ⟨_, rfl, rfl⟩
  rw [if_neg hkey, if_neg hkey]
  by_cases hmapper : mapper = ""
  · rw [if_pos hmapper, if_pos hmapper]
    exact .inl ⟨_, rfl, rfl⟩
  rw [if_neg hmapper, if_neg hmapper]
  obtain ⟨e, hu, h⟩ | ⟨e, v, hu, hb, h⟩ | ⟨v, hu, hb, h⟩ :=
    t.interpreter.sendBroadcast_handed link (.custom job key mapper shape) w
  · rw [h, hu]
    exact .inl ⟨_, rfl, rfl⟩
  · rw [h, hu]
    exact .inr (.inl ⟨e, v, rfl, hb, rfl⟩)
  · rw [h, hu]
    exact .inr (.inr ⟨_, v, rfl, hb, rfl⟩)

theorem meets_custom (key mapper : String) (shape : ResponseShape) (s : Site ν) (w : σ) :
    let done := (custom key mapper shape).perform link s w
    (custom key mapper shape).Meets link s w done.1 done.2.1 done.2.2 := by
  dsimp only
  rw [perform, Site.executeCustom]
  dsimp only
  obtain ⟨e, ho, h⟩ | ⟨e, v, ho, hb, h⟩ | ⟨sent, v, ho, hb, h⟩ :=
    sendCustom_handed link key mapper shape s.nextJob.2 s.nextJob.1 w
  · rw [h]
    exact .obstacle _ ho rfl rfl
  · rw [h]
    exact .refused _ ho hb rfl rfl
  · rw [h]
    exact .accepted _ ho hb rfl rfl

theorem meets_mapReduce (key mapper : String) (shape : ResponseShape) (reducer : Reducer ν)
    (s : Site ν) (w : σ) :
    let done := (mapReduce key mapper shape reducer).perform link s w
    (mapReduce key mapper shape reducer).Meets link s w done.1 done.2.1 done.2.2 := by
  have hhanded := sendCustom_handed link key mapper shape (s.awaiting reducer) s.nextJob.1 w
  dsimp only
  rw [perform]
  obtain ⟨e, t, v, h, hm⟩ | ⟨sent, t, v, h, hm⟩ :=
    s.mapReduce_cases key mapper shape reducer link w
  · rw [hm]
    rw [h] at hhanded
    obtain ⟨e', ho, heq⟩ | ⟨e', v', ho, hb, heq⟩ | ⟨sent, v', ho, hb, heq⟩ := hhanded
    · cases heq
      exact .obstacle _ ho rfl rfl
    · cases heq
      exact .refused _ ho hb rfl rfl
    · cases heq
  · rw [hm]
    rw [h] at hhanded
    obtain ⟨e', ho, heq⟩ | ⟨e', v', ho, hb, heq⟩ | ⟨sent', v', ho, hb, heq⟩ := hhanded
    · cases heq
    · cases heq
    · cases heq
      exact .accepted _ ho hb rfl rfl

theorem meets (call : Call ν) (s : Site ν) (w : σ) :
    let done := call.perform link s w
    call.Meets link s w done.1 done.2.1 done.2.2 := by
  cases call with
  | broadcast name args => exact meets_broadcast link name args s w
  | unicast target name args => exact meets_unicast link target name args s w
  | custom key mapper shape => exact meets_custom link key mapper shape s w
  | mapReduce key mapper shape reducer => exact meets_mapReduce link key mapper shape reducer s w

/-- The reducer that was subscribed before its command was sent is gone if that failed. -/
theorem hub_of_error (call : Call ν) {s : Site ν} (hs : s.hub.Numbered) (w : σ) {e : CallError}
    (h : (call.perform link s w).1 = .error e) :
    (call.perform link s w).2.1.hub =
      { s.hub with next := (call.perform link s w).2.1.hub.next } := by
  cases call with
  | broadcast | unicast => rfl
  | custom key mapper shape =>
    have hhub := s.executeCustom_hub link key mapper shape w
    rw [perform]
    dsimp only
    rw [hhub]
  | mapReduce key mapper shape reducer =>
    rw [perform] at h ⊢
    dsimp only at h ⊢
    obtain ⟨e', -, hhub⟩ | ⟨hok, -⟩ := s.mapReduce_hub link key mapper shape w reducer
    · have hcancel : (s.awaiting reducer).hub.cancel ⟨s.hub.next⟩ =
          { s.hub with next := s.hub.next + 1 } := hs.cancel_on _ _
      rw [hhub, hcancel]
    · rw [hok] at h
      cases h

theorem obstacle?_eq_none {call : Call ν} {i : Interpreter} :
    call.obstacle? i = none ↔
      call.validate i = .ok () ∧ (call.command i).isFinite ∧
        (call.command i).enveloped.length ≤ i.maxPayload := by
  rw [obstacle?]
  cases call.validate i with
  | error e => simp
  | ok u => simp [Command.unfit?_eq_none]

theorem encode_handover {call : Call ν} {i : Interpreter} (ho : call.obstacle? i = none)
    (result : Except TransportError Unit) :
    ∀ h ∈ [call.handover i result],
      encode (call.command i) = .ok h.payload ∧ h.addressing = call.addressing i := by
  intro h hh
  cases List.mem_singleton.mp hh
  exact ⟨encode_of_isFinite (obstacle?_eq_none.mp ho).2.1, rfl⟩

/-- Each call is handed to its transport once, if it is valid and its command can be encoded within
the limit, and otherwise not at all. It comes back with its first failure, if it has one, and then
the site is as it was before. -/
theorem all_or_nothing (call : Call ν) (i : Interpreter) (store : Store) (depth : Nat)
    (ops : List (Hub.Op ν)) (w : σ) (log : List Handover) :
    ∃ r s v handed, call.perform link.observed ⟨i, store, .after depth ops⟩ (w, log) =
        (r, s, v, log ++ handed) ∧
      -- Once or not at all, and what is handed over is the command as it is encoded.
      handed.length ≤ 1 ∧
      (handed.length = 1 ↔ call.validate i = .ok () ∧ (call.command i).isFinite ∧
        (call.command i).enveloped.length ≤ i.maxPayload) ∧
      (∀ h ∈ handed, encode (call.command i) = .ok h.payload ∧ h.addressing = call.addressing i) ∧
      -- The caller learns what became of it.
      ((∃ a, r = .ok a) ↔ ∃ h ∈ handed, h.result = .ok ()) ∧
      (∀ a, r = .ok a → call.acknowledged a = call.command i) ∧
      Site.refusal r = call.failure? i handed ∧
      -- An error leaves nothing behind.
      (∀ e, r = .error e → call.Spares ⟨i, store, .after depth ops⟩ s) := by
  have hmeets := meets link.observed call ⟨i, store, .after depth ops⟩ (w, log)
  have hhub := fun e => hub_of_error link.observed call (s := ⟨i, store, .after depth ops⟩)
    (Hub.numbered_after depth ops) (w, log) (e := e)
  rcases hdone : call.perform link.observed ⟨i, store, .after depth ops⟩ (w, log) with ⟨r, s, v⟩
  rw [hdone] at hmeets hhub
  rw [← obstacle?_eq_none]
  cases hmeets with
  | obstacle e ho hi hstore =>
    have ho : call.obstacle? i = some e := ho
    refine ⟨.error e, s, w, [], by rw [List.append_nil], Nat.zero_le _, ?_, ?_, ?_, ?_, ?_, ?_⟩
    · simp [ho]
    · intro h hh
      cases hh
    · simp
    · intro a ha
      cases ha
    · rw [failure?, ho]
      rfl
    · exact fun e he => ⟨hi, hstore, hhub e he⟩
  | refused e ho hand hi hstore =>
    have ho : call.obstacle? i = none := ho
    refine ⟨.error (.transport e), s, v.1, [call.handover i (.error e)], ?_, Nat.le_refl _,
      iff_of_true rfl ho, encode_handover ho _, ?_, ?_, ?_, ?_⟩
    · rw [handover, ← Link.log_of_hand hand]
    · simp [handover]
    · intro a ha
      cases ha
    · rw [failure?, ho]
      rfl
    · exact fun e he => ⟨hi, hstore, hhub e he⟩
  | accepted a ho hand hack hi =>
    have ho : call.obstacle? i = none := ho
    refine ⟨.ok a, s, v.1, [call.handover i (.ok ())], ?_, Nat.le_refl _, iff_of_true rfl ho,
      encode_handover ho _, ?_, ?_, ?_, ?_⟩
    · rw [handover, ← Link.log_of_hand hand]
    · simp [handover]
    · intro a' ha
      cases ha
      exact hack
    · rw [failure?, ho]
      rfl
    · intro e he
      cases he

end Call

end PeerMesh
