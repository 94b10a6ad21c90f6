import PeerMesh.Proofs.Cluster.Steps
import PeerMesh.Proofs.Mesh.Delivery

namespace PeerMesh

namespace Mesh

variable {m : Mesh} {p : PeerId}

def Act.Avoids (p : PeerId) : Act → Prop
  | broadcast _ _ token => token.origin ≠ p
  | _ => True

theorem Act.perform_frame (h : m.Sound) {a : Act} (ha : a.Avoids p) :
    (a.perform m).2.Sound ∧ (a.perform m).2.last p = m.last p ∧
      ∀ ep q, m.peer? ep = some q → (a.perform m).2.peer? ep = some q := by
  have requeued : ∀ {m' : Mesh} {f g}, Requeued m m' f g → m'.last p = m.last p →
      m'.Sound ∧ m'.last p = m.last p ∧ ∀ ep q, m.peer? ep = some q → m'.peer? ep = some q :=
    fun hq hl => ⟨hq.sound h, hl, fun ep q hp => (hq.peer? ep).trans hp⟩
  cases a with
  | join q =>
    refine ⟨h.join q, rfl, fun ep q' hp => ?_⟩
    have hlt := peer?_lt hp
    exact (peer?_join q ep).trans ((if_neg (Nat.ne_of_lt hlt)).trans hp)
  | leave q => exact ⟨h.leave q, rfl, fun ep q' hp => hp⟩
  | broadcast ep payload x =>
    rw [perform]
    obtain ⟨-, hb⟩ | ⟨-, hb⟩ | ⟨q, m', -, -, hb, hd, hq⟩ := broadcast_cases h ep payload x
    · rw [hb]
      exact ⟨h, rfl, fun ep q hp => hp⟩
    · rw [hb]
      exact ⟨h, rfl, fun ep q hp => hp⟩
    · rw [hb]
      exact requeued hq ((last_of_delivered hd p).trans (if_neg (Ne.symm ha)))
  | unicast ep target payload =>
    rw [perform]
    obtain ⟨e, hu⟩ | ⟨q, r, m', -, -, hu, hd, hq⟩ := unicast_cases h ep target payload
    · rw [hu]
      exact ⟨h, rfl, fun ep q hp => hp⟩
    · rw [hu]
      exact requeued hq (last_congr hd p)
  | receiveBroadcast ep =>
    rw [perform]
    obtain ⟨payload, m', -, hr, hd, hq⟩ | ⟨-, -, hr⟩ | ⟨-, -, hr⟩ := m.receiveBroadcast_cases ep
    · rw [hr]
      exact requeued hq (last_congr hd p)
    · rw [hr]
      exact ⟨h, rfl, fun ep q hp => hp⟩
    · rw [hr]
      exact ⟨h, rfl, fun ep q hp => hp⟩
  | receiveUnicast ep =>
    rw [perform]
    obtain ⟨item, m', -, hr, hd, hq⟩ | ⟨-, -, hr⟩ | ⟨-, -, hr⟩ := m.receiveUnicast_cases ep
    · rw [hr]
      exact requeued hq (last_congr hd p)
    · rw [hr]
      exact ⟨h, rfl, fun ep q hp => hp⟩
    · rw [hr]
      exact ⟨h, rfl, fun ep q hp => hp⟩

theorem sendings_positive (acts : List Act) :
    ∀ x ∈ sendings (historyOf acts), 0 < x.token.counter := by
  have hrun : ∀ {m : Mesh} {past : List Record}, Tracks m past →
      (∀ x ∈ sendings past, 0 < x.token.counter) →
      ∀ x ∈ sendings (runActs acts m past).2, 0 < x.token.counter := by
    induction acts with
    | nil => exact fun _ h => h
    | cons a acts ih =>
      intro m past ht h
      refine ih (ht.perform a) ?_
      cases a with
      | broadcast ep payload x =>
        obtain ⟨-, hb⟩ | ⟨-, hb⟩ | ⟨q, m', -, hlt, hb, -⟩ := broadcast_cases ht.sound ep payload x
        · rw [Act.perform, hb]
          exact h
        · rw [Act.perform, hb]
          exact h
        · rw [Act.perform, hb]
          intro y hy
          obtain hy | hy := List.mem_append.mp hy
          · exact h y hy
          · cases List.mem_singleton.mp hy
            exact UInt64.lt_of_le_of_lt UInt64.zero_le hlt
      | join | leave | unicast | receiveBroadcast | receiveUnicast => exact h
  exact hrun Tracks.start fun x hx => by cases hx

end Mesh

open Mesh (Act)

variable {ν : Type}

/-- What happens once a peer has joined: its site does something, its pump is aborted, or others use
the mesh. -/
inductive Turn (ν : Type)
  | own (t : Task ν)
  | stop
  | others (a : Act)

namespace Turn

def perform (ep : Nat) : Turn ν → Site ν × Mesh → Site ν × Mesh
  | own t, (s, w) => (t.perform ep s w).2
  | stop, (s, w) => ({ s with interpreter := s.interpreter.stop }, w)
  | others a, (s, w) => (s, (a.perform w).2)

def run (ep : Nat) (turns : List (Turn ν)) (x : Site ν × Mesh) : Site ν × Mesh :=
  turns.foldl (fun x t => t.perform ep x) x

/-- Nobody else broadcasts in the name of `p`. -/
def Avoids (p : PeerId) : Turn ν → Prop
  | others a => a.Avoids p
  | _ => True

end Turn

structure Site.Speaks (s : Site ν) (p : PeerId) (ep : Nat) (w : Mesh) : Prop where
  sound : w.Sound
  joined : w.peer? ep = some p
  owner : s.interpreter.clock.owner = p
  outbox : s.interpreter.OnlyResponds

theorem max_succ {a : UInt64} (h : a < a + 1) : max (a + 1) a = a + 1 := by
  have hdef : max (a + 1) a = if a + 1 ≤ a then a else a + 1 := rfl
  rw [hdef, if_neg (UInt64.not_le.mpr h)]

theorem not_lt_one_of_pos {c l : UInt64} (hc : c = 0) (hl : 0 < l) : ¬l < c + 1 := by
  have hone : (0 + 1 : UInt64).toNat = 1 := rfl
  have hzero : (0 : UInt64).toNat = 0 := rfl
  rw [hc, UInt64.lt_iff_toNat_lt, hone]
  rw [UInt64.lt_iff_toNat_lt, hzero] at hl
  omega

theorem Interpreter.build_fresh {settings : Settings} (hclock : settings.clock = none)
    {store store' : Store} {i : Interpreter}
    (hbuild : Interpreter.build settings store = .ok (i, store')) :
    i.clock = .ofOwner settings.peer ∧ i.outbox = [] := by
  rw [build] at hbuild
  split at hbuild
  · cases hbuild
  · split at hbuild
    · cases hbuild
    · cases hbuild
      rw [hclock]
      exact ⟨rfl, rfl⟩

namespace Site.Speaks

variable {s : Site ν} {p : PeerId} {ep : Nat} {w : Mesh}

theorem step (h : s.Speaks p ep w) {t : Task ν} {r : Option Report} {i : Interpreter} {w' : Mesh}
    (hs : t.Step ep s w r i w') (store : Store) (hub : Hub ν) :
    Site.Speaks ⟨i, store, hub⟩ p ep w' ∧
      ((i.clock.get p = s.interpreter.clock.get p ∧ w'.last p = w.last p) ∨
      (w.last p < s.interpreter.clock.get p + 1 ∧ w'.last p = s.interpreter.clock.get p + 1 ∧
        i.clock.get p = max (s.interpreter.clock.get p + 1) (s.interpreter.clock.get p))) := by
  obtain ⟨f, g, hre⟩ := hs.requeued h.sound
  have hjoined : w'.peer? ep = some p := (hre.peer? ep).trans h.joined
  obtain ⟨hd, hclock, -⟩ | ⟨c, -, hlt, hd, hclock⟩ := hs.clock h.sound
  · refine ⟨⟨hre.sound h.sound, hjoined, ?_, hs.continues.outbox h.outbox⟩,
      .inl ⟨by rw [hclock], Mesh.last_congr hd p⟩⟩
    rw [hclock, h.owner]
  · have hlast : w'.last p = s.interpreter.clock.get p + 1 := by
      rw [Mesh.last_of_delivered (t := s.interpreter.clock.peek) hd p, ← h.owner]
      exact if_pos rfl
    have hget : i.clock.get p =
        max (s.interpreter.clock.get p + 1) (s.interpreter.clock.get p) := by
      rw [hclock, VersionVector.get_commit, ← h.owner]
      exact if_pos rfl
    refine ⟨⟨hre.sound h.sound, hjoined, ?_, hs.continues.outbox h.outbox⟩,
      .inr ⟨?_, hlast, hget⟩⟩
    · rw [hclock, VersionVector.owner_commit, h.owner]
    · rw [← h.owner]
      exact hlt

theorem executeBroadcast (h : s.Speaks p ep w) {name : String} {args : List Val}
    (hvalid : s.interpreter.registry.validate name args = .ok ())
    (hfit : (Command.rpc name args).unfit? s.interpreter.maxPayload = none) :
    (s.interpreter.clock.get p + 1 ≤ w.last p ∧
      s.interpreter.executeBroadcast (Mesh.link ep) name args w =
        (.error (.transport (.staleToken ⟨p, s.interpreter.clock.get p + 1⟩)), s.interpreter, w)) ∨
    (w.last p < s.interpreter.clock.get p + 1 ∧ ∃ i v,
      s.interpreter.executeBroadcast (Mesh.link ep) name args w =
        (.ok ⟨.rpc name args, some ⟨p, s.interpreter.clock.get p + 1⟩, none⟩, i, v)) := by
  have hpeek : s.interpreter.clock.peek = ⟨p, s.interpreter.clock.get p + 1⟩ := by
    rw [VersionVector.peek, h.owner]
  rw [Interpreter.executeBroadcast, hvalid]
  dsimp only
  rw [Interpreter.sendBroadcast, Interpreter.payload_eq, hfit]
  dsimp only [Mesh.link]
  rw [hpeek]
  obtain ⟨he, -⟩ | ⟨hle, hb⟩ | ⟨q, v, -, hlt, hb, -⟩ := Mesh.broadcast_cases h.sound ep
    (Command.rpc name args).enveloped ⟨p, s.interpreter.clock.get p + 1⟩
  · have hjoined := h.joined
    rw [Mesh.peer?, he] at hjoined
    cases hjoined
  · rw [hb]
    exact .inl ⟨hle, rfl⟩
  · rw [hb]
    exact .inr ⟨hlt, _, _, rfl⟩

end Site.Speaks

namespace Turn

variable {p : PeerId} {ep : Nat}

theorem step {x : Site ν × Mesh} (h : x.1.Speaks p ep x.2) {t : Turn ν} (ht : t.Avoids p) :
    (t.perform ep x).1.Speaks p ep (t.perform ep x).2 ∧
      (((t.perform ep x).1.interpreter.clock.get p = x.1.interpreter.clock.get p ∧
        (t.perform ep x).2.last p = x.2.last p) ∨
      (x.2.last p < x.1.interpreter.clock.get p + 1 ∧
        (t.perform ep x).2.last p = x.1.interpreter.clock.get p + 1 ∧
        (t.perform ep x).1.interpreter.clock.get p =
          max (x.1.interpreter.clock.get p + 1) (x.1.interpreter.clock.get p))) := by
  obtain ⟨s, w⟩ := x
  cases t with
  | own t => exact h.step (Task.step h.sound h.outbox t) _ _
  | stop => exact ⟨⟨h.sound, h.joined, h.owner, fun c hc => by cases hc⟩, .inl ⟨rfl, rfl⟩⟩
  | others a =>
    obtain ⟨hsound, hlast, hpeer⟩ := Act.perform_frame h.sound ht
    exact ⟨⟨hsound, hpeer ep p h.joined, h.owner, h.outbox⟩, .inl ⟨rfl, hlast⟩⟩

/-- What accepted broadcasts preserve of the counts of the clock and of the mesh, a run does. -/
theorem run_counts {P : UInt64 → UInt64 → Prop}
    (hP : ∀ {c l}, P c l → l < c + 1 → P (max (c + 1) c) (c + 1)) {turns : List (Turn ν)}
    (hturns : ∀ t ∈ turns, t.Avoids p) {x : Site ν × Mesh} (h : x.1.Speaks p ep x.2)
    (hx : P (x.1.interpreter.clock.get p) (x.2.last p)) :
    (run ep turns x).1.Speaks p ep (run ep turns x).2 ∧
      P ((run ep turns x).1.interpreter.clock.get p) ((run ep turns x).2.last p) := by
  induction turns generalizing x with
  | nil => exact ⟨h, hx⟩
  | cons t turns ih =>
    obtain ⟨h', hcounts⟩ := step h (hturns t List.mem_cons_self)
    refine ih (fun t' ht' => hturns t' (List.mem_cons_of_mem _ ht')) h' ?_
    obtain ⟨hget, hlast⟩ | ⟨hlt, hlast, hget⟩ := hcounts
    · rw [hget, hlast]
      exact hx
    · rw [hget, hlast]
      exact hP hx hlt

end Turn

namespace Mesh

section

variable {settings : Settings} {store store' : Store} {i : Interpreter} {ep : Nat} {m : Mesh}
  {turns : List (Turn ν)} {s : Site ν} {w : Mesh}

theorem speaks_of_join (hclock : settings.clock = none)
    (hbuild : Interpreter.build settings store = .ok (i, store')) (hub : Hub ν) (acts : List Act)
    (hjoin : (meshAfter acts).join settings.peer = (ep, m)) :
    Site.Speaks ⟨i, store', hub⟩ settings.peer ep m ∧ i.clock.get settings.peer = 0 ∧
      m.last settings.peer = (meshAfter acts).last settings.peer := by
  obtain ⟨hi, houtbox⟩ := Interpreter.build_fresh hclock hbuild
  cases hjoin
  refine ⟨⟨(tracks acts).sound.join settings.peer, (peer?_join _ _).trans (if_pos rfl), ?_, ?_⟩,
    ?_, rfl⟩
  · rw [hi]
    rfl
  · intro c hc
    rw [houtbox] at hc
    cases hc
  · rw [hi]
    rfl

theorem counts_of_unsent (hclock : settings.clock = none)
    (hbuild : Interpreter.build settings store = .ok (i, store')) (hub : Hub ν) (acts : List Act)
    (hturns : ∀ t ∈ turns, t.Avoids settings.peer)
    (hjoin : (meshAfter acts).join settings.peer = (ep, m))
    (hrun : Turn.run ep turns (⟨i, store', hub⟩, m) = (s, w))
    (hnone : ∀ x ∈ sendings (historyOf acts), x.token.origin ≠ settings.peer) :
    s.Speaks settings.peer ep w ∧ s.interpreter.clock.get settings.peer = w.last settings.peer := by
  obtain ⟨hspeaks, hget, hlast⟩ := speaks_of_join hclock hbuild hub acts hjoin
  have hzero : m.last settings.peer = 0 := by
    obtain h0 | ⟨x, hx, ho, -⟩ := (tracks acts).reached settings.peer
    · rw [hlast, h0]
    · exact absurd ho (hnone x hx)
  have h := Turn.run_counts (P := fun c l => c = l) (x := (⟨i, store', hub⟩, m))
    (fun {c l} hcl hlt => max_succ (hcl ▸ hlt)) hturns hspeaks (hget.trans hzero.symm)
  rw [hrun] at h
  exact h

/-- Where a broadcast in the name of the peer was accepted before, its new clock stays at zero and
the counter of the mesh above it. -/
theorem counts_of_sent (hclock : settings.clock = none)
    (hbuild : Interpreter.build settings store = .ok (i, store')) (hub : Hub ν) (acts : List Act)
    (hturns : ∀ t ∈ turns, t.Avoids settings.peer)
    (hjoin : (meshAfter acts).join settings.peer = (ep, m))
    (hrun : Turn.run ep turns (⟨i, store', hub⟩, m) = (s, w))
    (hsome : ∃ x ∈ sendings (historyOf acts), x.token.origin = settings.peer) :
    s.Speaks settings.peer ep w ∧ s.interpreter.clock.get settings.peer = 0 ∧
      0 < w.last settings.peer := by
  obtain ⟨hspeaks, hget, hlast⟩ := speaks_of_join hclock hbuild hub acts hjoin
  obtain ⟨x, hx, ho⟩ := hsome
  have hpos : 0 < m.last settings.peer := by
    have hle := (tracks acts).seen x hx
    rw [ho] at hle
    rw [hlast]
    exact UInt64.lt_of_lt_of_le (sendings_positive acts x hx) hle
  have h := Turn.run_counts (P := fun c l => c = 0 ∧ 0 < l) (x := (⟨i, store', hub⟩, m))
    (fun {c l} hcl hlt => absurd hlt (not_lt_one_of_pos hcl.1 hcl.2)) hturns hspeaks ⟨hget, hpos⟩
  rw [hrun] at h
  exact h

/-- While no broadcast in its name was accepted, every valid broadcast of a peer that has joined is
acknowledged. Otherwise the mesh takes all of them for stale ones, for ever. -/
theorem joined_broadcasts (hclock : settings.clock = none)
    (hbuild : Interpreter.build settings store = .ok (i, store')) (hub : Hub ν) (acts : List Act)
    (hturns : ∀ t ∈ turns, t.Avoids settings.peer)
    (hjoin : (meshAfter acts).join settings.peer = (ep, m))
    (hrun : Turn.run ep turns (⟨i, store', hub⟩, m) = (s, w)) {name : String} {args : List Val}
    (hvalid : s.interpreter.registry.validate name args = .ok ())
    (hfit : (Command.rpc name args).isFinite ∧
      (Command.rpc name args).enveloped.length ≤ s.interpreter.maxPayload) :
    ((∀ x ∈ sendings (historyOf acts), x.token.origin ≠ settings.peer) →
      (s.interpreter.clock.get settings.peer).toNat < 2 ^ 64 - 1 →
      ∃ sent j v, s.interpreter.executeBroadcast (Mesh.link ep) name args w = (.ok sent, j, v)) ∧
    ((∃ x ∈ sendings (historyOf acts), x.token.origin = settings.peer) →
      s.interpreter.executeBroadcast (Mesh.link ep) name args w =
        (.error (.transport (.staleToken ⟨settings.peer, 1⟩)), s.interpreter, w)) := by
  have hunfit := Command.unfit?_eq_none.mpr hfit
  constructor
  · intro hnone hbound
    obtain ⟨hs, hcounts⟩ := counts_of_unsent hclock hbuild hub acts hturns hjoin hrun hnone
    obtain ⟨hle, -⟩ | ⟨-, j, v, hsent⟩ := hs.executeBroadcast hvalid hunfit
    · rw [← hcounts, UInt64.le_iff_toNat_le, UInt64.toNat_add] at hle
      have hone : (1 : UInt64).toNat = 1 := rfl
      omega
    · exact ⟨_, j, v, hsent⟩
  · intro hsome
    obtain ⟨hs, hzero, hpos⟩ := counts_of_sent hclock hbuild hub acts hturns hjoin hrun hsome
    obtain ⟨-, hstale⟩ | ⟨hlt, -⟩ := hs.executeBroadcast hvalid hunfit
    · rw [hstale, hzero]
      rfl
    · exact absurd hlt (not_lt_one_of_pos hzero hpos)

end

def pinged : List Act :=
  [.join ⟨"a"⟩, .broadcast 0 (Command.rpc "ping" []).enveloped ⟨⟨"a"⟩, 1⟩, .leave ⟨"a"⟩]

theorem joined_broadcasts_pinged :
    ∃ i store, Interpreter.build Site.pinging .empty = .ok (i, store) ∧ ∃ m,
      (meshAfter pinged).join ⟨"a"⟩ = (1, m) ∧ ∃ s w,
        Turn.run 1 [.own (.broadcast "ping" []), .others (.join ⟨"b"⟩)]
          (⟨i, store, (.empty : Hub Unit)⟩, m) = (s, w) ∧
        s.interpreter.executeBroadcast (Mesh.link 1) "ping" [] w =
          (.error (.transport (.staleToken ⟨⟨"a"⟩, 1⟩)), s.interpreter, w) := by
  obtain ⟨i, store, hbuild⟩ : ∃ i store, Interpreter.build Site.pinging .empty = .ok (i, store) :=
    ⟨_, _, rfl⟩
  obtain ⟨m, hjoin⟩ : ∃ m, (meshAfter pinged).join ⟨"a"⟩ = (1, m) := ⟨_, rfl⟩
  rcases hrun : Turn.run 1 [.own (.broadcast "ping" []), .others (.join ⟨"b"⟩)]
    (⟨i, store, (.empty : Hub Unit)⟩, m) with ⟨s, w⟩
  have hvalid : s.interpreter.registry.validate "ping" [] = .ok () := by
    cases hbuild
    cases hjoin
    cases hrun
    rfl
  have hfit : (Command.rpc "ping" []).enveloped.length ≤ s.interpreter.maxPayload := by
    cases hbuild
    cases hjoin
    cases hrun
    decide +kernel
  refine ⟨i, store, hbuild, m, hjoin, s, w, hrun, ?_⟩
  refine (joined_broadcasts rfl hbuild .empty pinged ?_ hjoin hrun hvalid ⟨rfl, hfit⟩).2 ?_
  · intro t ht
    obtain rfl | ht := List.mem_cons.mp ht
    · trivial
    · cases List.mem_singleton.mp ht
      trivial
  · refine ⟨⟨0, (Command.rpc "ping" []).enveloped, ⟨⟨"a"⟩, 1⟩, [.joined 0 ⟨"a"⟩]⟩, ?_, rfl⟩
    exact List.mem_singleton.mpr rfl

/-- The peer joins again, and its new interpreter cannot broadcast a valid call. -/
theorem rejoined_stale :
    ∃ i store, Interpreter.build Site.pinging .empty = .ok (i, store) ∧
      i.registry.validate "ping" [] = .ok () ∧ (Command.rpc "ping" []).isFinite ∧
      (Command.rpc "ping" []).enveloped.length ≤ i.maxPayload ∧
      ∃ ep m, (meshAfter pinged).join ⟨"a"⟩ = (ep, m) ∧
        Site.refusal (i.executeBroadcast (Mesh.link ep) "ping" [] m).1 =
          some (.transport (.staleToken ⟨⟨"a"⟩, 1⟩)) := by
  refine ⟨_, _, rfl, rfl, rfl, ?_, _, _, rfl, ?_⟩
  · decide +kernel
  · decide +kernel

end Mesh

end PeerMesh
