import PeerMesh.Proofs.Interpreter.Heard
import PeerMesh.Proofs.Interpreter.Outbox
import PeerMesh.Proofs.Interpreter.Run
import PeerMesh.Proofs.Wire.Kind

namespace PeerMesh

/-- The value map of a response has the field for the job. -/
def Command.NamesJob : Command → Prop
  | customResponse _ value => jobIdField ∈ value.map (·.1)
  | _ => True

theorem Command.namesJob_response (job : JobId) (key : String) (v : Val) :
    (response job key v).NamesJob := by
  rw [response, NamesJob, Fields.mem_names_ofList]
  exact List.mem_cons_self

theorem Command.namesJob_of_queuedIn {ν : Type} {log : List (Remark ν)} {c : Command}
    (h : c ∈ queuedIn log) : c.NamesJob := by
  obtain ⟨n, job, key, v, -, rfl⟩ := mem_queuedIn.mp h
  exact namesJob_response job key v

theorem Command.namesJob_of_decode {c c' : Command} (hf : c.isFinite) (hn : c.NamesJob)
    (h : decode c.enveloped = .ok c') : c'.NamesJob := by
  have hkind := kind_of_decode hf h
  cases c with
  | rpc | custom =>
    cases c' with
    | rpc | custom => trivial
    | customResponse => cases hkind
  | customResponse job value =>
    obtain ⟨value', rfl, hnames⟩ := names_of_decode hf h
    exact (hnames _).mpr hn

/-- All responses in the outbox and in what was broadcast name their job. -/
structure Interpreter.Naming (i : Interpreter) (log : List Attempt) : Prop where
  outbox : ∀ c ∈ i.outbox, c.NamesJob
  sent : ∀ a ∈ log, ∃ c : Command, a.payload = c.enveloped ∧ c.isFinite ∧ c.NamesJob

namespace Interpreter.Naming

variable {i j : Interpreter} {log : List Attempt}

theorem start {settings : Settings} {store store' : Store}
    (hbuild : Interpreter.build settings store = .ok (i, store')) : i.Naming [] := by
  rw [Interpreter.build] at hbuild
  split at hbuild
  · cases hbuild
  · split at hbuild
    · cases hbuild
    · cases hbuild
      exact ⟨fun c hc => (by cases hc), fun a ha => (by cases ha)⟩

theorem congr (h : i.Naming log) (ho : j.outbox = i.outbox) : j.Naming log :=
  ⟨fun c hc => h.outbox c (ho ▸ hc), h.sent⟩

theorem sublist (h : i.Naming log) (ho : j.outbox.Sublist i.outbox) : j.Naming log :=
  ⟨fun c hc => h.outbox c (ho.subset hc), h.sent⟩

theorem append {ν : Type} (h : i.Naming log) {more : List (Remark ν)}
    (ho : j.outbox = i.outbox ++ queuedIn more) : j.Naming log := by
  refine ⟨fun c hc => ?_, h.sent⟩
  rw [ho] at hc
  obtain hc | hc := List.mem_append.mp hc
  · exact h.outbox c hc
  · exact Command.namesJob_of_queuedIn hc

variable {σ : Type} (link : Link σ) {w : σ × List Attempt}

theorem sendBroadcast (h : i.Naming w.2) {c : Command} (hc : c.NamesJob) :
    (i.sendBroadcast link.recorded c w).2.1.Naming (i.sendBroadcast link.recorded c w).2.2.2 := by
  have hadd : ∀ {bs t r}, i.payload c = .ok bs →
      ∀ a ∈ w.2 ++ [(⟨bs, t, r⟩ : Attempt)], ∃ c : Command,
        a.payload = c.enveloped ∧ c.isFinite ∧ c.NamesJob := by
    intro bs t r hp a ha
    obtain ha | ha := List.mem_append.mp ha
    · exact h.sent a ha
    · obtain ⟨hfits, rfl⟩ := Interpreter.payload_eq_ok.mp hp
      cases List.mem_singleton.mp ha
      exact ⟨c, rfl, Command.isFinite_of_fits hfits, hc⟩
  obtain ⟨e, -, hs⟩ | ⟨bs, e, v, hp, hb, hs⟩ | ⟨bs, v, hp, hb, hs⟩ :=
    i.sendBroadcast_cases link.recorded c w
  · rw [hs]
    exact h
  · rw [hs, Link.log_of_broadcast hb]
    exact ⟨h.outbox, hadd hp⟩
  · rw [hs, Link.log_of_broadcast hb]
    exact ⟨h.outbox, hadd hp⟩

theorem forward (h : i.Naming w.2) :
    (i.forward link.recorded w).1.Naming (i.forward link.recorded w).2.2 := by
  rw [Interpreter.forward]
  split
  · exact h
  · next c rest hout =>
    have hrest : ({ i with outbox := rest } : Interpreter).Naming w.2 :=
      h.sublist (hout ▸ List.sublist_cons_self c rest)
    exact hrest.sendBroadcast link (h.outbox c (hout ▸ List.mem_cons_self))

theorem flush (h : i.Naming w.2) :
    (i.flush link.recorded w).1.Naming (i.flush link.recorded w).2.2 := by
  obtain ⟨n, hn⟩ : ∃ n, i.outbox.length = n := ⟨_, rfl⟩
  induction n generalizing i w with
  | zero =>
    rw [i.flush_of_nil link.recorded w (List.eq_nil_of_length_eq_zero hn)]
    exact h
  | succ n ih =>
    obtain ⟨c, rest, hout⟩ := List.exists_cons_of_length_eq_add_one hn
    rw [i.flush_of_cons link.recorded w hout]
    refine ih (h.forward link) ?_
    rw [outbox_forward, List.length_tail, hn, Nat.add_sub_cancel]

theorem settle (h : i.Naming w.2) :
    (i.settle link.recorded w).1.Naming (i.settle link.recorded w).2.2 := by
  rw [Interpreter.settle]
  split
  · exact h.flush link
  · exact h

theorem run (h : i.Naming w.2) :
    (i.run link.recorded w).2.1.Naming (i.run link.recorded w).2.2.2 := by
  rw [Interpreter.run]
  split
  · have hrunning : ({ i with pump := .running true true } : Interpreter).Naming w.2 := h.congr rfl
    exact hrunning.flush link
  · exact h

theorem setPump (h : i.Naming log) (p : Pump) : (i.setPump p).Naming log := by
  cases p with
  | ended => exact ⟨fun c hc => (by cases hc), h.sent⟩
  | idle | running => exact h.congr rfl

end Interpreter.Naming

namespace Site

variable {ν σ : Type} (link : Link σ) {s : Site ν} {w : σ × List Attempt}

theorem sendCustom_naming (h : s.interpreter.Naming w.2) (job : JobId) (key mapper : String)
    (shape : ResponseShape) :
    (s.sendCustom link.recorded job key mapper shape w).2.1.interpreter.Naming
      (s.sendCustom link.recorded job key mapper shape w).2.2.2 := by
  have hsend := h.sendBroadcast link (c := .custom job key mapper shape) trivial
  obtain ⟨e, hs⟩ | ⟨e, -, hs⟩ | ⟨sent, -, hs⟩ :=
    s.sendCustom_cases key mapper shape link.recorded job w
  · rw [hs]
    exact h
  · rw [hs]
    exact hsend
  · rw [hs]
    exact hsend

theorem mapReduce_naming (h : s.interpreter.Naming w.2) (key mapper : String)
    (shape : ResponseShape) (reducer : Reducer ν) :
    (s.mapReduce link.recorded key mapper shape reducer w).2.1.interpreter.Naming
      (s.mapReduce link.recorded key mapper shape reducer w).2.2.2 := by
  have hsend := sendCustom_naming link (s := s.awaiting reducer) (w := w) (h.congr rfl)
    s.nextJob.1 key mapper shape
  obtain ⟨e, t, v, hs, hm⟩ | ⟨sent, t, v, hs, hm⟩ :=
    s.mapReduce_cases key mapper shape reducer link.recorded w
  · rw [hs] at hsend
    rw [hm]
    exact hsend
  · rw [hs] at hsend
    rw [hm]
    exact hsend

theorem pump_naming (h : s.interpreter.Naming w.2) (view : View) (delivery : Delivery) :
    (s.pump link.recorded view delivery w).1.interpreter.Naming
      (s.pump link.recorded view delivery w).2.2.2 := by
  unfold pump
  cases delivery with
  | broadcast arrival =>
    dsimp only
    split
    · cases arrival with
      | item payload =>
        exact (h.append (s.receiveBroadcast_outbox view payload)).settle link
      | closed | failed e => exact h.setPump _
    · exact h
  | unicast arrival =>
    dsimp only
    split
    · cases arrival with
      | item m =>
        obtain ⟨sender, payload⟩ := m
        dsimp only
        rw [s.receiveUnicast_interpreter sender payload]
        exact h.settle link
      | closed | failed e => exact h.setPump _
    · exact h

theorem Move.perform_naming (m : Move ν σ) (h : s.interpreter.Naming w.2) :
    (m.perform link s w).2.1.interpreter.Naming (m.perform link s w).2.2.2 := by
  cases m with
  | broadcast name args =>
    rw [perform, Interpreter.executeBroadcast]
    cases s.interpreter.registry.validate name args with
    | error e => exact h
    | ok u => exact h.sendBroadcast link (c := .rpc name args) trivial
  | unicast target name args =>
    have hlog := s.interpreter.executeUnicast_log link w name args target
    rw [perform]
    dsimp only
    rw [hlog]
    exact h
  | custom key mapper shape =>
    have hsend := sendCustom_naming link (s := s.nextJob.2) (w := w) (h.congr rfl) s.nextJob.1 key
      mapper shape
    rw [← s.executeCustom_snd] at hsend
    exact hsend
  | mapReduce key mapper shape reducer => exact mapReduce_naming link h key mapper shape reducer
  | receiveBroadcast view payload => exact h.append (s.receiveBroadcast_outbox view payload)
  | receiveUnicast sender payload =>
    exact h.congr (congrArg (·.outbox) (s.receiveUnicast_interpreter sender payload))
  | emit emitter job key v => exact h.append (s.interpreter.outbox_emit (ν := ν) emitter job key v)
  | run => exact h.run link
  | deliver view delivery => exact pump_naming link h view delivery
  | forward => exact h.forward link
  | settle => exact h.settle link
  | stop => exact ⟨fun c hc => (by cases hc), h.sent⟩
  | disturb store hub world => exact h

theorem runMoves_naming (moves : List (Move ν σ)) (h : s.interpreter.Naming w.2) :
    (runMoves link moves s w).1.interpreter.Naming (runMoves link moves s w).2.2 := by
  induction moves generalizing s w with
  | nil => exact h
  | cons m moves ih => exact ih (m.perform_naming link h)

end Site

theorem Interpreter.executeUnicast_world {σ : Type} (i : Interpreter) (link : Link σ)
    (target : PeerId) (name : String) (args : List Val) (w : σ) :
    (i.executeUnicast link name args target w).2 = w ∨
      (i.executeUnicast link name args target w).2 =
        (link.unicast (Command.rpc name args).enveloped target w).2 := by
  rw [executeUnicast]
  cases i.registry.validate name args with
  | error e => exact .inl rfl
  | ok u =>
    dsimp only
    rw [sendUnicast]
    cases hp : i.payload (.rpc name args) with
    | error e => exact .inl rfl
    | ok bs =>
      obtain ⟨-, rfl⟩ := payload_eq_ok.mp hp
      dsimp only
      right
      split
      · next hu => rw [hu]
      · next hu => rw [hu]

def Event.NamesJob : Event → Prop
  | broadcastCustomResult value c => Command.jobIdField ∈ value.map (·.1) ∧ c.NamesJob
  | _ => True

namespace Site

variable {ν σ : Type} (s : Site ν)

theorem mem_broadcastEvents {view : View} {payload : Bytes} {value : Fields Val} {c : Command} :
    .broadcastCustomResult value c ∈ s.broadcastEvents view payload ↔
      ∃ job, c = .customResponse job value ∧ s.reads payload = some c := by
  rw [broadcastEvents_eq, Option.mem_toList, Option.bind_eq_some_iff]
  constructor
  · rintro ⟨c', hread, hevent⟩
    cases c' with
    | rpc | custom => cases hevent
    | customResponse job value' =>
      cases hevent
      exact ⟨job, rfl, hread⟩
  · rintro ⟨job, rfl, hread⟩
    exact ⟨_, hread, rfl⟩

theorem namesJob_of_broadcastEvents {view : View} {c : Command} (hf : c.isFinite) (hn : c.NamesJob)
    {e : Event} (he : e ∈ s.broadcastEvents view c.enveloped) : e.NamesJob := by
  cases e with
  | broadcastResult | unicastResult => trivial
  | broadcastCustomResult value c' =>
    obtain ⟨job, rfl, hread⟩ := s.mem_broadcastEvents.mp he
    have hnames := Command.namesJob_of_decode hf hn (decode_of_readWithin hread)
    exact ⟨hnames, hnames⟩

/-- Over every run, the responses that wait and those that are broadcast name their job, also to
listeners at any peer. Only calls are sent to a single peer. Listeners are given the value map of
every response that is read, so those that others sent name their job if they did there. -/
theorem responses_named (link : Link σ) {settings : Settings} {store store' : Store}
    {i : Interpreter} (hbuild : Interpreter.build settings store = .ok (i, store')) (hub : Hub ν)
    (moves : List (Move ν σ)) (world : σ) {s : Site ν} {v : σ} {log : List Attempt}
    (hrun : runMoves link moves ⟨i, store', hub⟩ (world, []) = (s, v, log)) :
    (∀ c ∈ s.interpreter.outbox, c.NamesJob) ∧
    (∀ a ∈ log, (∃ c : Command, a.payload = c.enveloped ∧ c.NamesJob) ∧
      ∀ (t : Site ν) (view : View), ∀ e ∈ t.broadcastEvents view a.payload, e.NamesJob) ∧
    (∀ target name args w,
      (s.interpreter.executeUnicast link name args target w).2 = w ∨
      (s.interpreter.executeUnicast link name args target w).2 =
        (link.unicast (Command.rpc name args).enveloped target w).2) ∧
    (∀ (view : View) payload value c,
      .broadcastCustomResult value c ∈ s.broadcastEvents view payload ↔
        ∃ job, c = .customResponse job value ∧ s.reads payload = some c) := by
  have h := runMoves_naming link (s := ⟨i, store', hub⟩) (w := (world, [])) moves (.start hbuild)
  rw [hrun] at h
  refine ⟨h.outbox, fun a ha => ?_, ?_, fun view payload value c => s.mem_broadcastEvents⟩
  · obtain ⟨c, hpayload, hf, hn⟩ := h.sent a ha
    refine ⟨⟨c, hpayload, hn⟩, fun t view e he => ?_⟩
    rw [hpayload] at he
    exact t.namesJob_of_broadcastEvents hf hn he
  · exact s.interpreter.executeUnicast_world link

def repeating : Settings where
  peer := ⟨"b"⟩
  jobIds := .ofStem "b"
  mappers := Dict.empty.insert "repeat" fun job _ v => .emit job "value" v fun _ => .done

def repeats : List (Move Unit Nat) :=
  [.run, .deliver (fun _ => [])
    (.broadcast (.item (Command.custom ⟨"j"⟩ "key" "repeat" .stream).enveloped))]

theorem responses_named_repeats :
    ∃ i store, Interpreter.build repeating (Store.empty.insert "key" (.value .unit)) =
        .ok (i, store) ∧
      ∃ s v log, runMoves refusingSecond repeats ⟨i, store, .empty⟩ (0, []) = (s, v, log) ∧
        log.length = 1 ∧ ∀ a ∈ log, ∃ c : Command, a.payload = c.enveloped ∧ c.NamesJob := by
  obtain ⟨i, store, hbuild⟩ : ∃ i store,
      Interpreter.build repeating (Store.empty.insert "key" (.value .unit)) = .ok (i, store) :=
    ⟨_, _, rfl⟩
  have hlog : (runMoves refusingSecond repeats ⟨i, store, .empty⟩ (0, [])).2.2.length = 1 := by
    cases hbuild
    decide +kernel
  rcases hrun : runMoves refusingSecond repeats ⟨i, store, .empty⟩ (0, []) with ⟨s, v, log⟩
  rw [hrun] at hlog
  obtain ⟨-, hsent, -⟩ := responses_named refusingSecond hbuild .empty repeats 0 hrun
  exact ⟨i, store, hbuild, s, v, log, hrun, hlog, fun a ha => (hsent a ha).1⟩

/-- A response with nothing in its value map is handed to listeners like any other. -/
theorem unnamed_response :
    ∃ i store, Interpreter.build pinging .empty = .ok (i, store) ∧
      .broadcastCustomResult [] (.customResponse ⟨"j"⟩ []) ∈
        (⟨i, store, .empty⟩ : Site Unit).broadcastEvents (fun _ => [])
          (Command.customResponse ⟨"j"⟩ []).enveloped ∧
      ¬(Command.customResponse ⟨"j"⟩ []).NamesJob := by
  obtain ⟨i, store, hbuild⟩ : ∃ i store, Interpreter.build pinging .empty = .ok (i, store) :=
    ⟨_, _, rfl⟩
  have hcanonical : (Command.customResponse ⟨"j"⟩ []).Canonical := ⟨.nil, fun f hf => by cases hf⟩
  refine ⟨i, store, hbuild, (mem_broadcastEvents _).mpr ⟨⟨"j"⟩, rfl, ?_⟩, List.not_mem_nil⟩
  cases hbuild
  rw [reads, readWithin_enveloped rfl hcanonical, if_pos (by decide +kernel)]

end Site

end PeerMesh
