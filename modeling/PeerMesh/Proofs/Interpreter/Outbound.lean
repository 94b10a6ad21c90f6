import PeerMesh.Interpreter.Outbound
import PeerMesh.Proofs.Interpreter.Attempts

namespace PeerMesh

/-- The call was refused here, before a transport had a part in it. -/
def CallError.isEarly : CallError → Bool
  | validation _ => true
  | codec _ => true
  | _ => false

namespace Interpreter

variable {σ : Type} (i : Interpreter)

theorem payload_error {c : Command} {e : CallError} (h : i.payload c = .error e) :
    ∃ d, e = .codec d := by
  rw [payload] at h
  split at h
  · cases h
    exact ⟨_, rfl⟩
  · split at h
    · cases h
      exact ⟨_, rfl⟩
    · cases h

theorem sendBroadcast_cases (link : Link σ) (c : Command) (w : σ) :
    (∃ e, i.payload c = .error (.codec e) ∧
      i.sendBroadcast link c w = (.error (.codec e), i, w)) ∨
    (∃ bs e v, i.payload c = .ok bs ∧ link.broadcast bs i.clock.peek w = (.error e, v) ∧
      i.sendBroadcast link c w = (.error (.transport e), i, v)) ∨
    (∃ bs v, i.payload c = .ok bs ∧ link.broadcast bs i.clock.peek w = (.ok (), v) ∧
      i.sendBroadcast link c w = (.ok ⟨c, some i.clock.peek, none⟩,
        { i with clock := i.clock.commit i.clock.peek }, v)) := by
  cases hp : i.payload c with
  | error e =>
    obtain ⟨d, rfl⟩ := i.payload_error hp
    refine .inl ⟨d, rfl, ?_⟩
    rw [sendBroadcast, hp]
  | ok bs =>
    rcases hb : link.broadcast bs i.clock.peek w with ⟨r, v⟩
    cases r with
    | error e =>
      refine .inr (.inl ⟨bs, e, v, rfl, hb, ?_⟩)
      rw [sendBroadcast, hp]
      dsimp only
      rw [hb]
    | ok u =>
      refine .inr (.inr ⟨bs, v, rfl, hb, ?_⟩)
      rw [sendBroadcast, hp]
      dsimp only
      rw [hb]

theorem sendUnicast_cases (link : Link σ) (c : Command) (target : PeerId) (w : σ) :
    (∃ e, i.sendUnicast link c target w = (.error (.codec e), w)) ∨
    (∃ bs v, link.unicast bs target w = (.ok (), v) ∧
      i.sendUnicast link c target w = (.ok ⟨c, none, some target⟩, v)) ∨
    (∃ bs e v, link.unicast bs target w = (.error e, v) ∧
      i.sendUnicast link c target w = (.error (.transport e), v)) := by
  cases hp : i.payload c with
  | error e =>
    obtain ⟨d, rfl⟩ := i.payload_error hp
    refine .inl ⟨d, ?_⟩
    rw [sendUnicast, hp]
  | ok bs =>
    rcases hb : link.unicast bs target w with ⟨r, v⟩
    cases r with
    | error e =>
      refine .inr (.inr ⟨bs, e, v, hb, ?_⟩)
      rw [sendUnicast, hp]
      dsimp only
      rw [hb]
    | ok u =>
      refine .inr (.inl ⟨bs, v, hb, ?_⟩)
      rw [sendUnicast, hp]
      dsimp only
      rw [hb]

variable (link : Link σ) (w : σ × List Attempt)

theorem sendBroadcast_advances (c : Command) :
    Advances (i.clock, w.2) (i.sendBroadcast link.recorded c w).2.1.clock
      (i.sendBroadcast link.recorded c w).2.2.2 := by
  obtain ⟨e, -, h⟩ | ⟨bs, e, v, -, hb, h⟩ | ⟨bs, v, -, hb, h⟩ :=
    i.sendBroadcast_cases link.recorded c w
  · rw [h]
    exact .here
  · rw [h, Link.log_of_broadcast hb]
    exact Advances.here.refused bs e
  · rw [h, Link.log_of_broadcast hb]
    exact Advances.here.accepted bs

theorem sendBroadcast_of_early (link : Link σ) (c : Command) (w : σ) {e : CallError}
    (h : (i.sendBroadcast link c w).1 = .error e) (he : e.isEarly) :
    (i.sendBroadcast link c w).2 = (i, w) := by
  obtain ⟨e', -, h'⟩ | ⟨bs, e', v, -, -, h'⟩ | ⟨bs, v, -, -, h'⟩ := i.sendBroadcast_cases link c w
  · rw [h']
  · rw [h'] at h
    cases h
    cases he
  · rw [h'] at h
    cases h

theorem sendUnicast_log (c : Command) (target : PeerId) :
    (i.sendUnicast link.recorded c target w).2.2 = w.2 := by
  obtain ⟨e, h⟩ | ⟨bs, v, hu, h⟩ | ⟨bs, e, v, hu, h⟩ := i.sendUnicast_cases link.recorded c target w
  · rw [h]
  · rw [h, Link.log_of_unicast hu]
  · rw [h, Link.log_of_unicast hu]

theorem executeBroadcast_advances (name : String) (args : List Val) :
    Advances (i.clock, w.2) (i.executeBroadcast link.recorded name args w).2.1.clock
      (i.executeBroadcast link.recorded name args w).2.2.2 := by
  rw [executeBroadcast]
  cases i.registry.validate name args with
  | error e => exact .here
  | ok u => exact i.sendBroadcast_advances link w _

theorem executeBroadcast_of_early (link : Link σ) (name : String) (args : List Val) (w : σ)
    {e : CallError} (h : (i.executeBroadcast link name args w).1 = .error e) (he : e.isEarly) :
    (i.executeBroadcast link name args w).2 = (i, w) := by
  rw [executeBroadcast] at h ⊢
  cases hv : i.registry.validate name args with
  | error e' => rfl
  | ok u =>
    rw [hv] at h
    exact i.sendBroadcast_of_early link _ w h he

theorem executeUnicast_log (name : String) (args : List Val) (target : PeerId) :
    (i.executeUnicast link.recorded name args target w).2.2 = w.2 := by
  rw [executeUnicast]
  cases i.registry.validate name args with
  | error e => rfl
  | ok u => exact i.sendUnicast_log link w _ target

end Interpreter

namespace Site

variable {ν σ : Type} (s : Site ν) (key mapper : String) (shape : ResponseShape)

theorem sendCustom_cases (link : Link σ) (job : JobId) (w : σ) :
    (∃ e, s.sendCustom link job key mapper shape w = (.error (.validation e), s, w)) ∨
    (∃ e, (s.interpreter.sendBroadcast link (.custom job key mapper shape) w).1 = .error e ∧
      s.sendCustom link job key mapper shape w = (.error e,
        { s with
          interpreter := (s.interpreter.sendBroadcast link (.custom job key mapper shape) w).2.1 },
        (s.interpreter.sendBroadcast link (.custom job key mapper shape) w).2.2)) ∨
    (∃ sent, (s.interpreter.sendBroadcast link (.custom job key mapper shape) w).1 = .ok sent ∧
      s.sendCustom link job key mapper shape w = (.ok sent,
        { s with
          interpreter := (s.interpreter.sendBroadcast link (.custom job key mapper shape) w).2.1
          store := s.store.recordJob job key },
        (s.interpreter.sendBroadcast link (.custom job key mapper shape) w).2.2)) := by
  rw [sendCustom]
  split
  · exact .inl ⟨_, rfl⟩
  · split
    · exact .inl ⟨_, rfl⟩
    · split
      · next hs => exact .inr (.inl ⟨_, by rw [hs], by rw [hs]⟩)
      · next hs => exact .inr (.inr ⟨_, by rw [hs], by rw [hs]⟩)

theorem sendCustom_advances (link : Link σ) (job : JobId) (w : σ × List Attempt) :
    Advances (s.interpreter.clock, w.2)
      (s.sendCustom link.recorded job key mapper shape w).2.1.interpreter.clock
      (s.sendCustom link.recorded job key mapper shape w).2.2.2 := by
  obtain ⟨e, h⟩ | ⟨e, -, h⟩ | ⟨sent, -, h⟩ :=
    s.sendCustom_cases key mapper shape link.recorded job w
  · rw [h]
    exact .here
  · rw [h]
    exact s.interpreter.sendBroadcast_advances link w _
  · rw [h]
    exact s.interpreter.sendBroadcast_advances link w _

theorem sendCustom_of_early (link : Link σ) (job : JobId) (w : σ) {e : CallError}
    (h : (s.sendCustom link job key mapper shape w).1 = .error e) (he : e.isEarly) :
    (s.sendCustom link job key mapper shape w).2 = (s, w) := by
  obtain ⟨e', h'⟩ | ⟨e', hb, h'⟩ | ⟨sent, -, h'⟩ := s.sendCustom_cases key mapper shape link job w
  · rw [h']
  · rw [h'] at h
    cases h
    rw [h', s.interpreter.sendBroadcast_of_early link _ w hb he]
  · rw [h'] at h
    cases h

theorem executeCustom_snd (link : Link σ) (w : σ) :
    (s.executeCustom link key mapper shape w).2 =
      (s.nextJob.2.sendCustom link s.nextJob.1 key mapper shape w).2 := by
  rw [executeCustom]
  dsimp only
  split
  · next hs => rw [hs]
  · next hs => rw [hs]

theorem executeCustom_error (link : Link σ) (w : σ) {e : CallError}
    (h : (s.executeCustom link key mapper shape w).1 = .error e) :
    (s.nextJob.2.sendCustom link s.nextJob.1 key mapper shape w).1 = .error e := by
  rw [executeCustom] at h
  dsimp only at h
  split at h
  · next hs =>
    cases h
    rw [hs]
  · cases h

theorem executeCustom_advances (link : Link σ) (w : σ × List Attempt) :
    Advances (s.interpreter.clock, w.2)
      (s.executeCustom link.recorded key mapper shape w).2.1.interpreter.clock
      (s.executeCustom link.recorded key mapper shape w).2.2.2 := by
  rw [executeCustom_snd]
  exact s.nextJob.2.sendCustom_advances key mapper shape link s.nextJob.1 w

theorem executeCustom_of_early (link : Link σ) (w : σ) {e : CallError}
    (h : (s.executeCustom link key mapper shape w).1 = .error e) (he : e.isEarly) :
    (s.executeCustom link key mapper shape w).2 = (s.nextJob.2, w) := by
  rw [executeCustom_snd]
  exact s.nextJob.2.sendCustom_of_early key mapper shape link s.nextJob.1 w
    (s.executeCustom_error key mapper shape link w h) he

variable (reducer : Reducer ν)

/-- The site in which a map-reduce sends its command: the identifier of the job is taken, and the
reducer is subscribed. -/
def awaiting : Site ν :=
  { s.nextJob.2 with
    hub := (s.nextJob.2.hub.on .broadcastCustomResult (reducing s.nextJob.1 reducer)).2 }

/-- If the command of a map-reduce is not sent, the subscription of its reducer ends. -/
theorem mapReduce_cases (link : Link σ) (w : σ) :
    (∃ e t v, (s.awaiting reducer).sendCustom link s.nextJob.1 key mapper shape w =
        (.error e, t, v) ∧
      s.mapReduce link key mapper shape reducer w =
        (.error e, { t with hub := t.hub.cancel ⟨s.hub.next⟩ }, v)) ∨
    (∃ sent t v, (s.awaiting reducer).sendCustom link s.nextJob.1 key mapper shape w =
        (.ok sent, t, v) ∧
      s.mapReduce link key mapper shape reducer w =
        (.ok ⟨s.nextJob.1, ⟨s.hub.next⟩⟩, t, v)) := by
  rcases hs : (s.awaiting reducer).sendCustom link s.nextJob.1 key mapper shape w with ⟨r, t, v⟩
  cases r with
  | error e =>
    refine .inl ⟨e, t, v, rfl, ?_⟩
    rw [awaiting] at hs
    rw [mapReduce]
    dsimp only
    rw [hs]
    rfl
  | ok sent =>
    refine .inr ⟨sent, t, v, rfl, ?_⟩
    rw [awaiting] at hs
    rw [mapReduce]
    dsimp only
    rw [hs]
    rfl

theorem mapReduce_advances (link : Link σ) (w : σ × List Attempt) :
    Advances (s.interpreter.clock, w.2)
      (s.mapReduce link.recorded key mapper shape reducer w).2.1.interpreter.clock
      (s.mapReduce link.recorded key mapper shape reducer w).2.2.2 := by
  have hsend := (s.awaiting reducer).sendCustom_advances key mapper shape link s.nextJob.1 w
  obtain ⟨e, t, v, hs, h⟩ | ⟨sent, t, v, hs, h⟩ :=
    s.mapReduce_cases key mapper shape reducer link.recorded w
  · rw [h]
    rw [hs] at hsend
    exact hsend
  · rw [h]
    rw [hs] at hsend
    exact hsend

theorem mapReduce_of_early (link : Link σ) (w : σ) {e : CallError}
    (h : (s.mapReduce link key mapper shape reducer w).1 = .error e) (he : e.isEarly) :
    (s.mapReduce link key mapper shape reducer w).2.1.interpreter = s.nextJob.2.interpreter ∧
      (s.mapReduce link key mapper shape reducer w).2.2 = w := by
  obtain ⟨e', t, v, hs, h'⟩ | ⟨sent, t, v, hs, h'⟩ :=
    s.mapReduce_cases key mapper shape reducer link w
  · rw [h'] at h
    cases h
    have hsend := (s.awaiting reducer).sendCustom_of_early key mapper shape link s.nextJob.1 w
      (by rw [hs]) he
    rw [hs] at hsend
    cases hsend
    rw [h']
    exact ⟨rfl, rfl⟩
  · rw [h'] at h
    cases h

end Site

end PeerMesh
