import PeerMesh.Proofs.Cluster.Reports

namespace PeerMesh

variable {ν : Type}

theorem Mesh.last_congr {w w' : Mesh} (h : w'.delivered = w.delivered) (p : PeerId) :
    w'.last p = w.last p := by
  rw [last, last, h]

theorem Mesh.unicast_ne_staleToken (w : Mesh) (k : Nat) (target : PeerId) (payload : Bytes)
    (x : Token) : (w.unicast k target payload).1 ≠ .error (.staleToken x) := by
  rw [Mesh.unicast]
  split
  · simp
  · simp
  · split
    · simp
    · split
      · simp
      · simp

theorem Mesh.unicast_ok {w w' : Mesh} (h : w.Sound) {k : Nat} {target : PeerId} {payload : Bytes}
    (hu : w.unicast k target payload = (.ok (), w')) :
    ∃ p r, w.peer? k = some p ∧ w.routes.get? target.id = some r ∧ w'.delivered = w.delivered ∧
      Requeued w w' (fun _ q => q) (fun j q => if j = r then q ++ [(p, payload)] else q) := by
  obtain ⟨e, he⟩ | ⟨p, r, v, hp, hr, hok, hd, hre⟩ := unicast_cases h k target payload
  · rw [hu] at he
    cases he
  · rw [hu] at hok
    cases hok
    exact ⟨p, r, hp, hr, hd, hre⟩

theorem Call.obstacle?_ne_transport {call : Call ν} {i : Interpreter} {e : CallError}
    (h : call.obstacle? i = some e) (x : TransportError) : e ≠ .transport x := by
  rintro rfl
  rw [obstacle?] at h
  split at h
  · cases h
  · obtain ⟨d, -, hd⟩ := Option.map_eq_some_iff.mp h
    cases hd

theorem Call.unicast_or_broadcast (call : Call ν) :
    (∃ target name args, call = .unicast target name args) ∨
    ∀ i : Interpreter, call.addressing i = .broadcast i.clock.peek ∧
      call.clockAfter i.clock = i.clock.commit i.clock.peek ∧
      ∀ p a, call.report p (.ok a) = .broadcast p (call.acknowledged a) := by
  cases call with
  | unicast target name args => exact .inl ⟨target, name, args, rfl⟩
  | broadcast | custom | mapReduce => exact .inr fun i => ⟨rfl, rfl, fun p a => rfl⟩

namespace Task

/-- All that a task can do to an interpreter and to the mesh, and what is told about it. -/
inductive Step (t : Task ν) (k : Nat) (s : Site ν) (w : Mesh) :
    Option Report → Interpreter → Mesh → Prop
  | quiet {i : Interpreter} (hi : s.interpreter.Continues i)
    (hclock : i.clock = s.interpreter.clock) : Step t k s w none i w
  | refused {i : Interpreter} (e : CallError) (hi : s.interpreter.Continues i)
    (hclock : i.clock = s.interpreter.clock)
    (hstale : ∀ x, e = .transport (.staleToken x) →
      s.interpreter.clock.peek.counter ≤ w.last s.interpreter.clock.owner) :
    Step t k s w (some (.refused s.interpreter.peer e)) i w
  | broadcast {i : Interpreter} {w' : Mesh} (c : Command) (hi : s.interpreter.Continues i)
    (hclock : i.clock = s.interpreter.clock.commit s.interpreter.clock.peek)
    (hfit : c.unfit? s.interpreter.maxPayload = none)
    (hc : c.kind = .customResponse ∨
      ∃ call, t.call? = some call ∧ call.validate s.interpreter = .ok () ∧
        c = call.command s.interpreter)
    (hsend : w.broadcast k c.enveloped s.interpreter.clock.peek = (.ok (), w')) :
    Step t k s w (some (.broadcast s.interpreter.peer c)) i w'
  | unicast {w' : Mesh} (target : PeerId) (name : String) (args : List Val)
    (hc : t.call? = some (.unicast target name args))
    (hvalid : s.interpreter.registry.validate name args = .ok ())
    (hfit : (Command.rpc name args).unfit? s.interpreter.maxPayload = none)
    (hsend : w.unicast k target (Command.rpc name args).enveloped = (.ok (), w')) :
    Step t k s w (some (.unicast s.interpreter.peer target (.rpc name args))) s.interpreter w'
  | served {i : Interpreter} {w' : Mesh} (payload : Bytes) (hi : s.interpreter.Continues i)
    (hclock : i.clock = s.interpreter.clock)
    (hread : payload :: w'.broadcasts k = w.broadcasts k)
    (hdelivered : w'.delivered = w.delivered)
    (hmesh : Mesh.Requeued w w' (fun j q => if j = k then q.tail else q) (fun _ q => q)) :
    Step t k s w
      (some (.emitted s.interpreter.peer (s.broadcastEvents w.neighbours payload))) i w'
  | servedUnicast {w' : Mesh} (sender : PeerId) (payload : Bytes)
    (hread : (sender, payload) :: w'.unicasts k = w.unicasts k)
    (hdelivered : w'.delivered = w.delivered)
    (hmesh : Mesh.Requeued w w' (fun _ q => q) (fun j q => if j = k then q.tail else q)) :
    Step t k s w
      (some (.emitted s.interpreter.peer (s.unicastEvents sender payload))) s.interpreter w'

variable {k : Nat} {s : Site ν} {w : Mesh}

namespace Step

variable {t : Task ν} {r : Option Report} {i : Interpreter} {w' : Mesh}

theorem continues (h : t.Step k s w r i w') : s.interpreter.Continues i := by
  cases h with
  | quiet hi | refused e hi | broadcast c hi | served payload hi => exact hi
  | unicast | servedUnicast => exact .refl _

theorem requeued (h : t.Step k s w r i w') (hw : w.Sound) : ∃ f g, Mesh.Requeued w w' f g := by
  cases h with
  | quiet | refused =>
    obtain ⟨-, g, hq⟩ := Mesh.Alike.refl w
    exact ⟨_, g, hq⟩
  | broadcast c hi hclock hfit hc hsend =>
    obtain ⟨p, -, -, hq⟩ := Mesh.broadcast_ok hw hsend
    exact ⟨_, _, hq⟩
  | unicast target name args hc hvalid hfit hsend =>
    obtain ⟨p, n, -, -, -, hq⟩ := Mesh.unicast_ok hw hsend
    exact ⟨_, _, hq⟩
  | served payload hi hclock hread hdelivered hmesh => exact ⟨_, _, hmesh⟩
  | servedUnicast sender payload hread hdelivered hmesh => exact ⟨_, _, hmesh⟩

theorem clock (h : t.Step k s w r i w') (hw : w.Sound) :
    (w'.delivered = w.delivered ∧ i.clock = s.interpreter.clock ∧
      ∀ p c, r ≠ some (.broadcast p c)) ∨
    ∃ c, r = some (.broadcast s.interpreter.peer c) ∧
      w.last s.interpreter.clock.owner < s.interpreter.clock.peek.counter ∧
      w'.delivered = w.delivered.insert s.interpreter.clock.peek.origin.id
        s.interpreter.clock.peek.counter ∧
      i.clock = s.interpreter.clock.commit s.interpreter.clock.peek := by
  cases h with
  | quiet hi hclock | refused e hi hclock => exact .inl ⟨rfl, hclock, nofun⟩
  | broadcast c hi hclock hfit hc hsend =>
    obtain ⟨-, hb⟩ | ⟨-, hb⟩ | ⟨q, v, -, hlt, hb, hd, -⟩ :=
      Mesh.broadcast_cases hw k c.enveloped s.interpreter.clock.peek
    · rw [hb] at hsend
      cases hsend
    · rw [hb] at hsend
      cases hsend
    · rw [hb] at hsend
      cases hsend
      exact .inr ⟨c, rfl, hlt, hd, hclock⟩
  | unicast target name args hc hvalid hfit hsend =>
    obtain ⟨p, n, -, -, hd, -⟩ := Mesh.unicast_ok hw hsend
    exact .inl ⟨hd, rfl, nofun⟩
  | served payload hi hclock hread hdelivered => exact .inl ⟨hdelivered, hclock, nofun⟩
  | servedUnicast sender payload hread hdelivered => exact .inl ⟨hdelivered, rfl, nofun⟩

end Step

theorem broadcast_refused (hw : w.Sound) {payload : Bytes} {x : Token} {e : TransportError}
    {w' : Mesh} (h : w.broadcast k payload x = (.error e, w')) :
    w' = w ∧ ∀ y, e = .staleToken y → x.counter ≤ w.last x.origin := by
  obtain ⟨-, hb⟩ | ⟨hle, hb⟩ | ⟨p, v, -, -, hb, -⟩ := Mesh.broadcast_cases hw k payload x
  · rw [hb] at h
    cases h
    exact ⟨rfl, fun y hy => by cases hy⟩
  · rw [hb] at h
    cases h
    exact ⟨rfl, fun y _ => hle⟩
  · rw [hb] at h
    cases h

theorem unicast_refused (hw : w.Sound) {target : PeerId} {payload : Bytes} {e : TransportError}
    {w' : Mesh} (h : w.unicast k target payload = (.error e, w')) :
    w' = w ∧ ∀ y, e ≠ .staleToken y := by
  refine ⟨?_, fun y hy => w.unicast_ne_staleToken k target payload y ?_⟩
  · obtain ⟨e', hu⟩ | ⟨p, r, v, -, -, hu, -⟩ := Mesh.unicast_cases hw k target payload
    · rw [hu] at h
      cases h
      rfl
    · rw [hu] at h
      cases h
  · rw [h, hy]

theorem step_call (hw : w.Sound) {t : Task ν} {call : Call ν} (hcall : t.call? = some call) :
    Step t k s w (t.report k s w) (t.perform k s w).2.1.interpreter (t.perform k s w).2.2 := by
  obtain ⟨hperform, hreport⟩ := perform_call hcall k s w
  have hmeets := Call.meets (Mesh.link k) call s w
  dsimp only at hmeets
  rw [hperform, hreport]
  rcases hdone : call.perform (Mesh.link k) s w with ⟨r, s', w'⟩
  rw [hdone] at hmeets
  dsimp only at hmeets ⊢
  cases hmeets with
  | obstacle e ho hi hstore =>
    rw [hi]
    refine .refused e ⟨rfl, rfl, rfl, id⟩ rfl fun x hx => ?_
    exact absurd hx (Call.obstacle?_ne_transport ho _)
  | refused e ho hand hi hstore =>
    rw [hi]
    obtain ⟨target, name, args, rfl⟩ | hbroadcast := call.unicast_or_broadcast
    · obtain ⟨rfl, hne⟩ := unicast_refused hw hand
      refine .refused (.transport e) ⟨rfl, rfl, rfl, id⟩ rfl fun x hx => ?_
      exact absurd (CallError.transport.inj hx) (hne x)
    · obtain ⟨haddressing, -, -⟩ := hbroadcast s.interpreter
      rw [haddressing] at hand
      obtain ⟨rfl, hstale⟩ := broadcast_refused hw hand
      refine .refused (.transport e) ⟨rfl, rfl, rfl, id⟩ rfl fun x hx => ?_
      exact hstale x (CallError.transport.inj hx)
  | accepted a ho hand hack hi =>
    obtain ⟨target, name, args, rfl⟩ | hbroadcast := call.unicast_or_broadcast
    · obtain ⟨hvalid, hfit⟩ := Call.obstacle?_eq_none.mp ho
      have hsame : s'.interpreter = s.interpreter := hi
      have hreport : Call.report (.unicast (ν := ν) target name args) s.interpreter.peer (.ok a) =
          .unicast s.interpreter.peer target (.rpc name args) := congrArg _ hack
      rw [hsame, hreport]
      exact .unicast target name args hcall hvalid (Command.unfit?_eq_none.mpr hfit) hand
    · obtain ⟨haddressing, hclock, hok⟩ := hbroadcast s.interpreter
      obtain ⟨hvalid, hfit⟩ := Call.obstacle?_eq_none.mp ho
      rw [haddressing] at hand
      rw [hi, hok, hack, hclock]
      exact .broadcast _ ⟨rfl, rfl, rfl, id⟩ rfl (Command.unfit?_eq_none.mpr hfit)
        (.inr ⟨call, hcall, hvalid, rfl⟩) hand

theorem step_serve (w : Mesh) :
    Step (serve (ν := ν)) k s w (report k serve s w) (perform k serve s w).2.1.interpreter
      (perform k serve s w).2.2 := by
  rw [report, perform]
  split
  · obtain ⟨payload, w', hq, hr, hd, hre⟩ | ⟨-, -, hr⟩ | ⟨-, -, hr⟩ := w.receiveBroadcast_cases k
    · rw [hr]
      have hsame := s.receiveBroadcast_resembles w.neighbours payload
      exact .served payload ⟨hsame.peer, hsame.registry, hsame.maxPayload,
        fun h => Site.receiveBroadcast_onlyResponds h w.neighbours payload⟩ hsame.clock hq hd hre
    · rw [hr]
      exact .quiet (.refl _) rfl
    · rw [hr]
      exact .quiet (.setPump _ _) (Interpreter.clock_setPump _ _)
  · exact .quiet (.refl _) rfl

theorem step_serveUnicast (w : Mesh) :
    Step (serveUnicast (ν := ν)) k s w (report k serveUnicast s w)
      (perform k serveUnicast s w).2.1.interpreter (perform k serveUnicast s w).2.2 := by
  rw [report, perform]
  split
  · obtain ⟨⟨sender, payload⟩, w', hq, hr, hd, hre⟩ | ⟨-, -, hr⟩ | ⟨-, -, hr⟩ :=
      w.receiveUnicast_cases k
    · rw [hr]
      dsimp only
      rw [s.receiveUnicast_interpreter sender payload]
      exact .servedUnicast sender payload hq hd hre
    · rw [hr]
      exact .quiet (.refl _) rfl
    · rw [hr]
      exact .quiet (.setPump _ _) (Interpreter.clock_setPump _ _)
  · exact .quiet (.refl _) rfl

theorem step_forward (hw : w.Sound) (ho : s.interpreter.OnlyResponds) :
    Step (forward (ν := ν)) k s w (report k forward s w) (perform k forward s w).2.1.interpreter
      (perform k forward s w).2.2 := by
  rw [report, perform]
  split
  · cases hout : s.interpreter.outbox with
    | nil => exact .quiet (.refl _) rfl
    | cons c rest =>
      have hrest : s.interpreter.OnlyResponds → ∀ c' ∈ rest, c'.kind = .customResponse :=
        fun h c' hc' => h c' (hout ▸ List.mem_cons_of_mem c hc')
      dsimp only
      obtain ⟨e, -, h⟩ | ⟨e, v, -, hand, h⟩ | ⟨v, hfit, hand, h⟩ :=
        { s.interpreter with outbox := rest }.sendBroadcast_handed (Mesh.link k) c w
      · rw [h]
        exact .refused (.codec e) ⟨rfl, rfl, rfl, hrest⟩ rfl fun x hx => by cases hx
      · obtain ⟨rfl, hstale⟩ := broadcast_refused hw hand
        rw [h]
        refine .refused (.transport e) ⟨rfl, rfl, rfl, hrest⟩ rfl fun x hx => ?_
        exact hstale x (CallError.transport.inj hx)
      · rw [h]
        exact .broadcast c ⟨rfl, rfl, rfl, hrest⟩ rfl hfit
          (.inl (ho c (hout ▸ List.mem_cons_self))) hand
  · exact .quiet (.refl _) rfl

theorem step (hw : w.Sound) (ho : s.interpreter.OnlyResponds) (t : Task ν) :
    Step t k s w (t.report k s w) (t.perform k s w).2.1.interpreter (t.perform k s w).2.2 := by
  cases t with
  | broadcast | unicast | custom | mapReduce => exact step_call hw rfl
  | serve => exact step_serve w
  | serveUnicast => exact step_serveUnicast w
  | forward => exact step_forward hw ho
  | start =>
    rw [perform]
    split
    · exact .quiet ⟨rfl, rfl, rfl, id⟩ rfl
    · exact .quiet (.refl _) rfl
  | emit n job key v =>
    rw [perform]
    split
    · exact .quiet (.refl _) rfl
    · have hsame := Interpreter.Resembles.emit s.interpreter n job key v
      exact .quiet ⟨hsame.peer, hsame.registry, hsame.maxPayload, fun h => h.emit n job key v⟩
        hsame.clock
  | use | put => exact .quiet (.refl _) rfl

end Task

end PeerMesh
