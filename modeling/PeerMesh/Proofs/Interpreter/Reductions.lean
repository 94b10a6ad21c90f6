import PeerMesh.Proofs.Events.Reductions
import PeerMesh.Proofs.Interpreter.Inbound
import PeerMesh.Proofs.Interpreter.Outbound
import PeerMesh.Proofs.Interpreter.Payload

namespace PeerMesh

variable {ν : Type}

def Command.answer? (job : JobId) : Command → Option (Fields Val × Command)
  | customResponse j value => if j = job then some (value, customResponse j value) else none
  | _ => none

theorem Command.answer?_eq_some {job : JobId} {c : Command} {r : Fields Val × Command}
    (h : c.answer? job = some r) : c = customResponse job r.1 ∧ r.2 = c := by
  cases c with
  | rpc | custom => cases h
  | customResponse j value =>
    rw [answer?] at h
    split at h
    · next hj =>
      cases h
      rw [hj]
      exact ⟨rfl, rfl⟩
    · cases h

def Command.answers (job : JobId) (c : Command) : Bool :=
  (c.answer? job).isSome

theorem Command.job?_of_answers {job : JobId} {c : Command} (h : c.answers job) :
    c.job? = some job := by
  cases c with
  | rpc | custom => cases h
  | customResponse j value =>
    rw [answers, answer?] at h
    split at h
    · next hj => exact congrArg some hj
    · cases h

def Remark.moment? : Remark ν → Option (Moment ν)
  | moment m => some m
  | _ => none

def moments (log : List (Remark ν)) : List (Moment ν) :=
  log.filterMap Remark.moment?

theorem moments_append (log more : List (Remark ν)) :
    moments (log ++ more) = moments log ++ moments more :=
  List.filterMap_append

theorem moments_map (log : List (Moment ν)) : moments (log.map .moment) = log := by
  rw [moments, List.filterMap_map]
  exact List.filterMap_some

theorem Event.reduction?_response (job j : JobId) (value : Fields Val) :
    (broadcastCustomResult value (.customResponse j value)).reduction? job =
      (Command.customResponse j value).answer? job := by
  rw [reduction?, Command.answer?, Command.job?]
  by_cases hj : j = job
  · rw [if_pos (congrArg some hj), if_pos hj]
  · rw [if_neg fun h => hj (Option.some.inj h), if_neg hj]

variable (view : View)

theorem Script.run_hub (emitter : Nat) (job : JobId) (script : Script) (s : Site ν) :
    (script.run view emitter job s).2.1.hub = s.hub ∧
      moments (script.run view emitter job s).2.2 = [] := by
  induction script generalizing s with
  | done | fail message | panic => exact ⟨rfl, rfl⟩
  | emit target key v next ih => exact ih _ _
  | resolve key next ih =>
    rw [run]
    split
    · exact ⟨rfl, rfl⟩
    · exact ih _ _
  | insert key v next ih | insertRecipe key r next ih | remove key next ih => exact ih _
  | retain slot next ih => exact ih s

/-- The reducer never makes up a response to `job`. -/
def Reducer.Spares (job : JobId) (reducer : Reducer ν) : Prop :=
  ∀ value c, (reducer value c).Spares job

namespace Site

variable (s : Site ν)

theorem receiveCustom_hub (job : JobId) (key mapper : String) (shape : ResponseShape) :
    (s.receiveCustom view job key mapper shape).2.1.hub = s.hub ∧
      moments (s.receiveCustom view job key mapper shape).2.2 = [] := by
  obtain ⟨-, store, h⟩ | ⟨-, script, store, h⟩ := s.receiveCustom_cases view job key mapper shape
  · rw [h]
    exact ⟨rfl, rfl⟩
  · rw [h]
    exact script.run_hub view (s.interpreter.newEmitter shape).1 job
      ⟨(s.interpreter.newEmitter shape).2, store, s.hub⟩

theorem receiveBroadcast_hub (payload : Bytes) (job : JobId) :
    ((s.receiveBroadcast view payload).2.1.hub = s.hub ∧
      moments (s.receiveBroadcast view payload).2.2 = [] ∧
      (readWithin s.interpreter.maxPayload payload).bind (Command.answer? job) = none) ∨
    ∃ e : Event, (s.receiveBroadcast view payload).2.1.hub = (s.hub.emit e).1 ∧
      moments (s.receiveBroadcast view payload).2.2 = (s.hub.emit e).2 ∧
      (readWithin s.interpreter.maxPayload payload).bind (Command.answer? job) =
        e.reduction? job := by
  cases hd : s.decode payload with
  | error e =>
    rw [receiveBroadcast, hd]
    refine .inl ⟨rfl, rfl, ?_⟩
    cases hr : readWithin s.interpreter.maxPayload payload with
    | none => rfl
    | some c =>
      rw [decode_eq_ok.mpr hr] at hd
      cases hd
  | ok c =>
    rw [decode_eq_ok.mp hd, Option.bind_some]
    cases c with
    | rpc name args =>
      rw [receiveBroadcast, hd]
      exact .inr ⟨_, rfl, moments_map _, rfl⟩
    | custom job' key mapper shape =>
      rw [receiveBroadcast_custom view hd]
      obtain ⟨hhub, hlog⟩ := s.receiveCustom_hub view job' key mapper shape
      exact .inl ⟨hhub, hlog, rfl⟩
    | customResponse j value =>
      rw [receiveBroadcast, hd]
      exact .inr ⟨_, rfl, moments_map _, (Event.reduction?_response job j value).symm⟩

theorem receiveUnicast_hub (sender : PeerId) (payload : Bytes) (job : JobId) :
    ((s.receiveUnicast sender payload).2.1.hub = s.hub ∧
      moments (s.receiveUnicast sender payload).2.2 = []) ∨
    ∃ e : Event, (s.receiveUnicast sender payload).2.1.hub = (s.hub.emit e).1 ∧
      moments (s.receiveUnicast sender payload).2.2 = (s.hub.emit e).2 ∧
      e.reduction? job = none := by
  rw [receiveUnicast]
  cases s.decode payload with
  | error e => exact .inl ⟨rfl, rfl⟩
  | ok c =>
    cases c with
    | rpc name args => exact .inr ⟨_, rfl, moments_map _, rfl⟩
    | custom | customResponse => exact .inl ⟨rfl, rfl⟩

variable {s} {job : JobId} {subscription : Subscription} {listener : Listener ν}

theorem receiveBroadcast_ready (hr : s.hub.Ready job) (payload : Bytes) :
    (s.receiveBroadcast view payload).2.1.hub.Ready job := by
  obtain ⟨hhub, -, -⟩ | ⟨e, hhub, -, -⟩ := s.receiveBroadcast_hub view payload job
  · rw [hhub]
    exact hr
  · rw [hhub]
    exact Hub.emit_preserves Hub.Ready.invariant hr e

theorem receiveBroadcast_watches (hw : s.hub.Watches subscription job listener)
    (payload : Bytes) :
    (s.receiveBroadcast view payload).2.1.hub.Watches subscription job listener ∧
      reductions subscription job (moments (s.receiveBroadcast view payload).2.2) =
        ((readWithin s.interpreter.maxPayload payload).bind (Command.answer? job)).toList := by
  obtain ⟨hhub, hlog, hnone⟩ | ⟨e, hhub, hlog, he⟩ := s.receiveBroadcast_hub view payload job
  · rw [hhub, hlog, hnone]
    exact ⟨hw, rfl⟩
  · rw [hhub, hlog, he]
    exact ⟨Hub.emit_preserves Hub.Watches.invariant hw e, hw.reductions_emit e⟩

theorem receiveUnicast_ready (hr : s.hub.Ready job) (sender : PeerId) (payload : Bytes) :
    (s.receiveUnicast sender payload).2.1.hub.Ready job := by
  obtain ⟨hhub, -⟩ | ⟨e, hhub, -, -⟩ := s.receiveUnicast_hub sender payload job
  · rw [hhub]
    exact hr
  · rw [hhub]
    exact Hub.emit_preserves Hub.Ready.invariant hr e

theorem receiveUnicast_watches (hw : s.hub.Watches subscription job listener) (sender : PeerId)
    (payload : Bytes) :
    (s.receiveUnicast sender payload).2.1.hub.Watches subscription job listener ∧
      reductions subscription job (moments (s.receiveUnicast sender payload).2.2) = [] := by
  obtain ⟨hhub, hlog⟩ | ⟨e, hhub, hlog, he⟩ := s.receiveUnicast_hub sender payload job
  · rw [hhub, hlog]
    exact ⟨hw, rfl⟩
  · rw [hhub, hlog]
    refine ⟨Hub.emit_preserves Hub.Watches.invariant hw e, (hw.reductions_emit e).trans ?_⟩
    rw [he]
    rfl

section

variable {σ : Type} (s : Site ν) (link : Link σ) (key mapper : String) (shape : ResponseShape)
  (w : σ)

theorem sendCustom_hub (job : JobId) :
    (s.sendCustom link job key mapper shape w).2.1.hub = s.hub := by
  obtain ⟨e, h⟩ | ⟨e, -, h⟩ | ⟨sent, -, h⟩ := s.sendCustom_cases key mapper shape link job w
  · rw [h]
  · rw [h]
  · rw [h]

theorem executeCustom_hub : (s.executeCustom link key mapper shape w).2.1.hub = s.hub := by
  rw [executeCustom_snd]
  exact s.nextJob.2.sendCustom_hub link key mapper shape w _

theorem mapReduce_hub (reducer : Reducer ν) :
    (∃ e, (s.mapReduce link key mapper shape reducer w).1 = .error e ∧
      (s.mapReduce link key mapper shape reducer w).2.1.hub =
        (s.awaiting reducer).hub.cancel ⟨s.hub.next⟩) ∨
    ((s.mapReduce link key mapper shape reducer w).1 = .ok ⟨s.nextJob.1, ⟨s.hub.next⟩⟩ ∧
      (s.mapReduce link key mapper shape reducer w).2.1.hub = (s.awaiting reducer).hub) := by
  have hsend := (s.awaiting reducer).sendCustom_hub link key mapper shape w s.nextJob.1
  obtain ⟨e, t, v, hs, h⟩ | ⟨sent, t, v, hs, h⟩ := s.mapReduce_cases key mapper shape reducer link w
  · rw [hs] at hsend
    refine .inl ⟨e, ?_, ?_⟩
    · rw [h]
    · rw [h, ← hsend]
  · rw [hs] at hsend
    refine .inr ⟨?_, ?_⟩
    · rw [h]
    · rw [h, ← hsend]

end

theorem reducing_spares {reducer : Reducer ν} (h : reducer.Spares job) (j : JobId) (e : Event) :
    (reducing j reducer e).Spares job := by
  cases e with
  | broadcastResult | unicastResult => trivial
  | broadcastCustomResult value c =>
    rw [reducing]
    split
    · exact h value c
    · trivial

section

variable {σ : Type} (link : Link σ) (key mapper : String) (shape : ResponseShape) (w : σ)
  {reducer : Reducer ν}

theorem awaiting_ready (hr : s.hub.Ready job) (h : reducer.Spares job) :
    (s.awaiting reducer).hub.Ready job :=
  hr.on _ (reducing_spares h _)

theorem mapReduce_ready (hr : s.hub.Ready job) (h : reducer.Spares job) :
    (s.mapReduce link key mapper shape reducer w).2.1.hub.Ready job := by
  have ha := awaiting_ready hr h
  obtain ⟨e, -, hhub⟩ | ⟨-, hhub⟩ := s.mapReduce_hub link key mapper shape w reducer
  · rw [hhub]
    exact ha.cancel _
  · rw [hhub]
    exact ha

/-- From its acknowledgement on, the reducer of a map-reduce is watched. -/
theorem mapReduce_watched (hr : s.hub.Ready job) (h : reducer.Spares job) {m : MapReduce}
    (hm : (s.mapReduce link key mapper shape reducer w).1 = .ok m) :
    (s.mapReduce link key mapper shape reducer w).2.1.hub.Watches m.subscription job
      (reducing m.job reducer) := by
  obtain ⟨e, he, -⟩ | ⟨hok, hhub⟩ := s.mapReduce_hub link key mapper shape w reducer
  · rw [he] at hm
    cases hm
  · rw [hok] at hm
    cases hm
    rw [hhub]
    exact hr.watches (reducing_spares h _)

theorem mapReduce_watches (hw : s.hub.Watches subscription job listener) (h : reducer.Spares job) :
    (s.mapReduce link key mapper shape reducer w).2.1.hub.Watches subscription job listener := by
  have ha : (s.awaiting reducer).hub.Watches subscription job listener :=
    hw.on _ (reducing_spares h _)
  obtain ⟨e, -, hhub⟩ | ⟨-, hhub⟩ := s.mapReduce_hub link key mapper shape w reducer
  · rw [hhub]
    exact ha.cancel (Nat.ne_of_gt hw.next)
  · rw [hhub]
    exact ha

end

end Site

end PeerMesh
