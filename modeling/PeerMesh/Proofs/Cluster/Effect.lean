import PeerMesh.Proofs.Cluster
import PeerMesh.Proofs.Interpreter.Pump
import PeerMesh.Proofs.JobIds

namespace PeerMesh

def Mesh.Alike (w w' : Mesh) : Prop :=
  w'.delivered = w.delivered ∧ ∃ g, Mesh.Requeued w w' (fun _ q => q) g

theorem Mesh.Alike.refl (w : Mesh) : w.Alike w := by
  refine ⟨rfl, fun _ q => q, rfl, fun j => ?_⟩
  cases w.endpoints[j]? with
  | none => rfl
  | some e => rfl

inductive Command.Issued (g : JobIds) : Command → JobIds → Prop
  | rpc (name : String) (args : List Val) : Issued g (.rpc name args) g
  | custom (key mapper : String) (shape : ResponseShape) :
    Issued g (.custom g.next.1 key mapper shape) g.next.2

variable {ν : Type}

/-- The site is that of an endpoint on which its broadcasts are not stale. -/
structure Site.Placed (s : Site ν) (k : Nat) (w : Mesh) : Prop where
  sound : w.Sound
  routed : w.Routed k
  fresh : w.last s.interpreter.clock.owner < s.interpreter.clock.peek.counter
  opened : s.interpreter.isOpen

/-- What a task can do: something that is not seen by other peers, a call, the broadcast or the loss
of a response, the service of a broadcast, or a call of an emitter. -/
inductive Task.Effect (k : Nat) (s : Site ν) (w : Mesh) :
    List (Deed ν) → Interpreter → Mesh → Prop
  | quiet {deeds : List (Deed ν)} {w' : Mesh} (ids : JobIds) (pump : Pump)
    (hdeeds : ∀ d ∈ deeds, ∃ log, d = .noted log ∧ ∀ r ∈ log, r.isInert)
    (hids : ids = s.interpreter.jobIds ∨ ids = s.interpreter.jobIds.next.2)
    (hpump : pump ≠ .ended) (hmesh : w.Alike w') :
    Effect k s w deeds { s.interpreter with jobIds := ids, pump := pump } w'
  | called {c : Command} {ids : JobIds} {rest : List (Deed ν)} {w' : Mesh}
    (hissued : c.Issued s.interpreter.jobIds ids) (hfits : c.fits s.interpreter.maxPayload)
    (hsend : w.broadcast k c.enveloped s.interpreter.clock.peek = (.ok (), w'))
    (hrest : ∀ d ∈ rest, ∃ m, d = .reducing m ∧ c.job? = some m.job) :
    Effect k s w (.called c :: rest)
      { s.interpreter with
        jobIds := ids
        clock := s.interpreter.clock.commit s.interpreter.clock.peek } w'
  | forwarded {c : Command} {rest : List Command} {w' : Mesh}
    (hout : s.interpreter.outbox = c :: rest) (hfits : c.fits s.interpreter.maxPayload)
    (hsend : w.broadcast k c.enveloped s.interpreter.clock.peek = (.ok (), w')) :
    Effect k s w [.forwarded c true]
      { s.interpreter with
        outbox := rest
        clock := s.interpreter.clock.commit s.interpreter.clock.peek } w'
  | dropped {c : Command} {rest : List Command} (hout : s.interpreter.outbox = c :: rest)
    (hfits : c.fits s.interpreter.maxPayload = false) :
    Effect k s w [.forwarded c false] { s.interpreter with outbox := rest } w
  | served {payload : Bytes} {w' : Mesh} (hread : payload :: w'.broadcasts k = w.broadcasts k)
    (hdelivered : w'.delivered = w.delivered)
    (hmesh : Mesh.Requeued w w' (fun j q => if j = k then q.tail else q) (fun _ q => q)) :
    Effect k s w [.served w.neighbours s payload]
      (s.receiveBroadcast w.neighbours payload).2.1.interpreter w'
  | emitted {n : Nat} {e : Emitter} (he : s.interpreter.emitters[n]? = some e) (job : JobId)
    (key : String) (v : Val) :
    Effect k s w [.noted [.emitted n job key v (s.interpreter.emit n job key v).1]]
      (s.interpreter.emit n job key v).2 w

theorem Mesh.peer?_ne_none {w : Mesh} {k : Nat} (h : w.Routed k) : w.endpoints[k]? ≠ none :=
  fun he => Mesh.not_routed he h

namespace Interpreter

theorem sendBroadcast_mesh {i : Interpreter} {w : Mesh} {k : Nat} (hw : w.Sound)
    (hk : w.Routed k) (hfresh : w.last i.clock.owner < i.clock.peek.counter) (c : Command) :
    (c.fits i.maxPayload = false ∧ ∃ e, i.sendBroadcast (Mesh.link k) c w = (.error e, i, w)) ∨
    (c.fits i.maxPayload ∧ ∃ w', w.broadcast k c.enveloped i.clock.peek = (.ok (), w') ∧
      i.sendBroadcast (Mesh.link k) c w = (.ok ⟨c, some i.clock.peek, none⟩,
        { i with clock := i.clock.commit i.clock.peek }, w')) := by
  obtain ⟨e, hp, h⟩ | ⟨bs, e, v, -, hb, -⟩ | ⟨bs, v, hp, hb, h⟩ :=
    i.sendBroadcast_cases (Mesh.link k) c w
  · exact .inl ⟨fits_eq_false hp, _, h⟩
  · obtain ⟨he, -⟩ | ⟨hle, -⟩ | ⟨p, w', -, -, hok, -⟩ := Mesh.broadcast_cases hw k bs i.clock.peek
    · exact absurd he (Mesh.peer?_ne_none hk)
    · exact absurd hle (UInt64.not_le.mpr hfresh)
    · have hb' : w.broadcast k bs i.clock.peek = (.error e, v) := hb
      rw [hok] at hb'
      cases hb'
  · obtain ⟨hfits, rfl⟩ := payload_eq_ok.mp hp
    exact .inr ⟨hfits, v, hb, h⟩

end Interpreter

namespace Task

variable {k : Nat} {s : Site ν} {w : Mesh}

theorem pump_ne_ended (h : s.Placed k w) : s.interpreter.pump ≠ .ended :=
  of_decide_eq_true h.opened

theorem Effect.same (h : s.Placed k w) {deeds : List (Deed ν)}
    (hdeeds : ∀ d ∈ deeds, ∃ log, d = .noted log ∧ ∀ r ∈ log, r.isInert)
    {w' : Mesh} (hw : w.Alike w') : Effect k s w deeds s.interpreter w' :=
  .quiet s.interpreter.jobIds s.interpreter.pump hdeeds (.inl rfl) (pump_ne_ended h) hw

theorem Effect.idle (h : s.Placed k w) : Effect k s w [] s.interpreter w :=
  .same h (fun d hd => by cases hd) (.refl w)

theorem sendCustom_mesh (h : s.Placed k w) (t : Site ν)
    (ht : t.interpreter = s.nextJob.2.interpreter) (key mapper : String) (shape : ResponseShape) :
    (∃ e u, t.sendCustom (Mesh.link k) s.nextJob.1 key mapper shape w = (.error e, u, w) ∧
      Effect k s w [] u.interpreter w) ∨
    (∃ sent u w', t.sendCustom (Mesh.link k) s.nextJob.1 key mapper shape w = (.ok sent, u, w') ∧
      ∀ rest, (∀ d ∈ rest, ∃ m, d = .reducing m ∧ s.nextJob.1 = m.job) →
        Effect k s w (.called (.custom s.nextJob.1 key mapper shape) :: rest) u.interpreter
          w') := by
  have hquiet : Effect k s w ([] : List (Deed ν)) s.nextJob.2.interpreter w :=
    .quiet s.interpreter.jobIds.next.2 s.interpreter.pump (fun d hd => by cases hd) (.inr rfl)
      (pump_ne_ended h) (.refl w)
  have hsend := t.interpreter.sendBroadcast_mesh h.sound h.routed (ht ▸ h.fresh)
    (.custom s.nextJob.1 key mapper shape)
  obtain ⟨e, hc⟩ | ⟨e, he, hc⟩ | ⟨sent, hok, hc⟩ :=
    t.sendCustom_cases key mapper shape (Mesh.link k) s.nextJob.1 w
  · exact .inl ⟨_, t, hc, ht ▸ hquiet⟩
  · obtain ⟨-, e', hs⟩ | ⟨-, w', -, hs⟩ := hsend
    · rw [hs] at hc
      exact .inl ⟨_, _, hc, ht ▸ hquiet⟩
    · rw [hs] at he
      cases he
  · obtain ⟨-, e', hs⟩ | ⟨hfits, w', hb, hs⟩ := hsend
    · rw [hs] at hok
      cases hok
    · rw [hs] at hc
      refine .inr ⟨_, _, w', hc, fun rest hrest => ?_⟩
      dsimp only
      rw [ht] at hfits hb ⊢
      refine .called (.custom key mapper shape) hfits hb fun d hd => ?_
      obtain ⟨m, hm, hjob⟩ := hrest d hd
      exact ⟨m, hm, congrArg some hjob⟩

theorem broadcast_effect (h : s.Placed k w) (name : String) (args : List Val) :
    Effect k s w ((broadcast name args).perform k s w).1
      ((broadcast name args).perform k s w).2.1.interpreter
      ((broadcast name args).perform k s w).2.2 := by
  rw [perform, Interpreter.executeBroadcast]
  cases s.interpreter.registry.validate name args with
  | error e => exact .idle h
  | ok u =>
    obtain ⟨-, e, hs⟩ | ⟨hfits, w', hb, hs⟩ :=
      s.interpreter.sendBroadcast_mesh h.sound h.routed h.fresh (.rpc name args)
    · dsimp only
      rw [hs]
      exact .idle h
    · dsimp only
      rw [hs]
      exact .called (.rpc name args) hfits hb fun d hd => by cases hd

theorem unicast_effect (h : s.Placed k w) (target : PeerId) (name : String) (args : List Val) :
    Effect k s w ((unicast target name args).perform k s w).1
      ((unicast target name args).perform k s w).2.1.interpreter
      ((unicast target name args).perform k s w).2.2 := by
  have halike : ∀ bs, w.Alike (w.unicast k target bs).2 := by
    intro bs
    obtain ⟨e, hu⟩ | ⟨p, r, w', -, -, hu, hd, hq⟩ := Mesh.unicast_cases h.sound k target bs
    · rw [hu]
      exact .refl w
    · rw [hu]
      exact ⟨hd, _, hq⟩
  refine .same h (fun d hd => by cases hd) ?_
  rw [perform, Interpreter.executeUnicast]
  cases s.interpreter.registry.validate name args with
  | error e => exact .refl w
  | ok u =>
    dsimp only
    obtain ⟨e, hs⟩ | ⟨bs, v, hu, hs⟩ | ⟨bs, e, v, hu, hs⟩ :=
      s.interpreter.sendUnicast_cases (Mesh.link k) (.rpc name args) target w
    · rw [hs]
      exact .refl w
    · rw [hs]
      have hv : (w.unicast k target bs).2 = v := congrArg Prod.snd hu
      exact hv ▸ halike bs
    · rw [hs]
      have hv : (w.unicast k target bs).2 = v := congrArg Prod.snd hu
      exact hv ▸ halike bs

theorem custom_effect (h : s.Placed k w) (key mapper : String) (shape : ResponseShape) :
    Effect k s w ((custom key mapper shape).perform k s w).1
      ((custom key mapper shape).perform k s w).2.1.interpreter
      ((custom key mapper shape).perform k s w).2.2 := by
  rw [perform, Site.executeCustom]
  dsimp only
  obtain ⟨e, u, hs, heffect⟩ | ⟨sent, u, w', hs, heffect⟩ :=
    sendCustom_mesh h s.nextJob.2 rfl key mapper shape
  · rw [hs]
    exact heffect
  · rw [hs]
    exact heffect [] fun d hd => by cases hd

theorem mapReduce_effect (h : s.Placed k w) (key mapper : String) (shape : ResponseShape)
    (reducer : Reducer ν) :
    Effect k s w ((mapReduce key mapper shape reducer).perform k s w).1
      ((mapReduce key mapper shape reducer).perform k s w).2.1.interpreter
      ((mapReduce key mapper shape reducer).perform k s w).2.2 := by
  have hsend := sendCustom_mesh h (s.awaiting reducer) rfl key mapper shape
  rw [perform]
  obtain ⟨e, t, v, hs, hm⟩ | ⟨sent, t, v, hs, hm⟩ :=
    s.mapReduce_cases key mapper shape reducer (Mesh.link k) w
  · rw [hm]
    obtain ⟨e', u, hs', heffect⟩ | ⟨sent, u, w', hs', -⟩ := hsend
    · rw [hs] at hs'
      cases hs'
      exact heffect
    · rw [hs] at hs'
      cases hs'
  · rw [hm]
    obtain ⟨e', u, hs', -⟩ | ⟨sent, u, w', hs', heffect⟩ := hsend
    · rw [hs] at hs'
      cases hs'
    · rw [hs] at hs'
      cases hs'
      refine heffect _ fun d hd => ?_
      cases List.mem_singleton.mp hd
      exact ⟨_, rfl, rfl⟩

theorem serve_effect (h : s.Placed k w) :
    Effect k s w ((serve (ν := ν)).perform k s w).1 ((serve (ν := ν)).perform k s w).2.1.interpreter
      ((serve (ν := ν)).perform k s w).2.2 := by
  rw [perform]
  split
  · obtain ⟨payload, w', hq, hr, hd, hre⟩ | ⟨-, -, hr⟩ | ⟨-, hn, -⟩ := w.receiveBroadcast_cases k
    · rw [hr]
      exact .served hq hd hre
    · rw [hr]
      exact .idle h
    · exact absurd h.routed hn
  · exact .idle h

theorem serveUnicast_effect (h : s.Placed k w) :
    Effect k s w ((serveUnicast (ν := ν)).perform k s w).1
      ((serveUnicast (ν := ν)).perform k s w).2.1.interpreter
      ((serveUnicast (ν := ν)).perform k s w).2.2 := by
  rw [perform]
  split
  · obtain ⟨⟨sender, payload⟩, w', -, hr, hd, hre⟩ | ⟨-, -, hr⟩ | ⟨-, hn, -⟩ :=
      w.receiveUnicast_cases k
    · rw [hr]
      dsimp only
      rw [s.receiveUnicast_interpreter sender payload]
      refine .same h (fun d hd => ?_) ⟨hd, _, hre⟩
      cases List.mem_singleton.mp hd
      exact ⟨_, rfl, s.isInert_receiveUnicast sender payload⟩
    · rw [hr]
      exact .idle h
    · exact absurd h.routed hn
  · exact .idle h

theorem forward_effect (h : s.Placed k w) :
    Effect k s w ((forward (ν := ν)).perform k s w).1
      ((forward (ν := ν)).perform k s w).2.1.interpreter
      ((forward (ν := ν)).perform k s w).2.2 := by
  rw [perform]
  split
  · split
    · exact .idle h
    · next c rest hout =>
      obtain ⟨hfits, e, hs⟩ | ⟨hfits, w', hb, hs⟩ :=
        { s.interpreter with outbox := rest }.sendBroadcast_mesh h.sound h.routed h.fresh c
      · rw [hs]
        exact .dropped hout hfits
      · rw [hs]
        exact .forwarded hout hfits hb
  · exact .idle h

theorem emit_effect (h : s.Placed k w) (n : Nat) (job : JobId) (key : String) (v : Val) :
    Effect k s w ((emit (ν := ν) n job key v).perform k s w).1
      ((emit (ν := ν) n job key v).perform k s w).2.1.interpreter
      ((emit (ν := ν) n job key v).perform k s w).2.2 := by
  rw [perform]
  split
  · exact .idle h
  · next e he => exact .emitted he job key v

/-- Nothing else happens to the interpreter of a site and to the mesh when it is given a task. -/
theorem effect (h : s.Placed k w) (t : Task ν) :
    Effect k s w (t.perform k s w).1 (t.perform k s w).2.1.interpreter (t.perform k s w).2.2 := by
  cases t with
  | broadcast name args => exact broadcast_effect h name args
  | unicast target name args => exact unicast_effect h target name args
  | custom key mapper shape => exact custom_effect h key mapper shape
  | mapReduce key mapper shape reducer => exact mapReduce_effect h key mapper shape reducer
  | start =>
    rw [perform]
    split
    · exact .quiet s.interpreter.jobIds (.running true true) (fun d hd => by cases hd) (.inl rfl)
        (fun he => by cases he) (.refl w)
    · exact .idle h
  | serve => exact serve_effect h
  | serveUnicast => exact serveUnicast_effect h
  | forward => exact forward_effect h
  | emit n job key v => exact emit_effect h n job key v
  | use op =>
    refine .same h (fun d hd => ?_) (.refl w)
    cases List.mem_singleton.mp hd
    refine ⟨_, rfl, fun r hr => ?_⟩
    obtain ⟨m, -, rfl⟩ := List.mem_map.mp hr
    rfl
  | put store => exact .idle h

end Task

end PeerMesh
