import PeerMesh.Proofs.Cluster.Steps
import PeerMesh.Proofs.Cluster.Traffic

namespace PeerMesh

def hasJoined (p : PeerId) : List Report → Bool
  | [] => false
  | .joined q :: past => q = p || hasJoined p past
  | .left q :: past => q ≠ p && hasJoined p past
  | _ :: past => hasJoined p past

/-- The broadcasts that were accepted from others while the peer was there. -/
def broadcastsFor (p : PeerId) : List Report → List Command
  | [] => []
  | .broadcast sender c :: past =>
    broadcastsFor p past ++ if sender ≠ p ∧ hasJoined p past then [c] else []
  | _ :: past => broadcastsFor p past

/-- The unicasts to the peer that were accepted, with their senders. -/
def unicastsFor (p : PeerId) : List Report → List (PeerId × Command)
  | [] => []
  | .unicast sender target c :: past =>
    unicastsFor p past ++ if target = p then [(sender, c)] else []
  | _ :: past => unicastsFor p past

def eventsAt (p : PeerId) (kind : EventKind) : List Report → List Event
  | [] => []
  | .emitted q events :: past =>
    eventsAt p kind past ++ if q = p then events.filter fun e => e.kind = kind else []
  | _ :: past => eventsAt p kind past

def acceptedBy (p : PeerId) : List Report → Nat
  | [] => 0
  | .broadcast sender _ :: past => acceptedBy p past + if sender = p then 1 else 0
  | _ :: past => acceptedBy p past

theorem broadcastsFor_emitted (p q : PeerId) (events : List Event) (past : List Report) :
    broadcastsFor p (.emitted q events :: past) = broadcastsFor p past :=
  rfl

theorem unicastsFor_emitted (p q : PeerId) (events : List Event) (past : List Report) :
    unicastsFor p (.emitted q events :: past) = unicastsFor p past :=
  rfl

theorem acceptedBy_of_ne {r : Option Report} (h : ∀ q c, r ≠ some (.broadcast q c)) (p : PeerId)
    (past : List Report) : acceptedBy p (r.toList ++ past) = acceptedBy p past := by
  cases r with
  | none => rfl
  | some r =>
    cases r with
    | broadcast q c => exact absurd rfl (h q c)
    | joined | left | unicast | refused | emitted => rfl

/-- What is due was served, in order, and answered by events, or it still is queued. -/
def Serves {α β : Type} (code : α → β) (answer : α → Option Event) (due : List α) (queue : List β)
    (events : List Event) : Prop :=
  ∃ served waiting, due = served ++ waiting ∧ queue = waiting.map code ∧
    events = served.filterMap answer

namespace Serves

variable {α β : Type} {code : α → β} {answer : α → Option Event} {due : List α} {queue : List β}
  {events : List Event}

theorem nil : Serves code answer [] [] [] :=
  ⟨[], [], rfl, rfl, rfl⟩

theorem push (h : Serves code answer due queue events) (a : α) :
    Serves code answer (due ++ [a]) (queue ++ [code a]) events := by
  obtain ⟨served, waiting, rfl, rfl, he⟩ := h
  refine ⟨served, waiting ++ [a], List.append_assoc .., ?_, he⟩
  rw [List.map_append]
  rfl

theorem pop {b : β} (h : Serves code answer due (b :: queue) events) :
    ∃ a, b = code a ∧ Serves code answer due queue (events ++ (answer a).toList) := by
  obtain ⟨served, waiting, hdue, hq, he⟩ := h
  cases waiting with
  | nil => cases hq
  | cons a waiting =>
    cases hq
    refine ⟨a, rfl, served ++ [a], waiting, ?_, rfl, ?_⟩
    · rw [hdue, List.append_assoc, List.singleton_append]
    · rw [List.filterMap_append, he, List.filterMap_cons]
      cases answer a with
      | none => rfl
      | some e => rfl

theorem served {j k : Nat} {b : β} {rest : List β} {emitted : List Event}
    (h : Serves code answer due queue events) (hread : j = k → b :: rest = queue)
    (hemitted : ∀ a, j = k → b = code a → emitted = (answer a).toList)
    (hother : j ≠ k → emitted = []) :
    Serves code answer due (if j = k then queue.tail else queue) (events ++ emitted) := by
  by_cases hj : j = k
  · cases hread hj
    obtain ⟨a, ha, hpop⟩ := h.pop
    rw [if_pos hj, List.tail_cons, hemitted a hj ha]
    exact hpop
  · rw [if_neg hj, hother hj, List.append_nil]
    exact h

end Serves

def Registry.callEvent? (r : Registry) : Command → Option Event
  | .rpc name args => some (.broadcastResult (r.invoke name args) (.rpc name args))
  | _ => none

namespace Newcomer

/-- What a broadcast makes known at the peer, if it reads a call. -/
def broadcastAnswer (x : Newcomer) (c : Command) : Option Event :=
  (readWithin x.maxPayload c.enveloped).bind x.registry.callEvent?

def unicastAnswer (x : Newcomer) (item : PeerId × Command) : Option Event :=
  (readWithin x.maxPayload item.2.enveloped).bind (x.registry.unicastEvent? item.1)

end Newcomer

variable {ν : Type}

namespace Site

variable {s : Site ν}

theorem broadcastEvents_results (view : View) (payload : Bytes) :
    (s.broadcastEvents view payload).filter (fun e => e.kind = .broadcastResult) =
        ((s.reads payload).bind s.interpreter.registry.callEvent?).toList ∧
      (s.broadcastEvents view payload).filter (fun e => e.kind = .unicastResult) = [] := by
  rw [broadcastEvents_eq]
  cases s.reads payload with
  | none => exact ⟨rfl, rfl⟩
  | some c =>
    cases c with
    | rpc | custom | customResponse => exact ⟨rfl, rfl⟩

theorem unicastEvents_results (sender : PeerId) (payload : Bytes) :
    (s.unicastEvents sender payload).filter (fun e => e.kind = .unicastResult) =
        ((s.reads payload).bind (s.interpreter.registry.unicastEvent? sender)).toList ∧
      (s.unicastEvents sender payload).filter (fun e => e.kind = .broadcastResult) = [] := by
  rw [unicastEvents_eq]
  cases s.reads payload with
  | none => exact ⟨rfl, rfl⟩
  | some c =>
    cases c with
    | rpc | custom | customResponse => exact ⟨rfl, rfl⟩

end Site

/-- What was sent to the peer was served at its endpoint, or is queued there. -/
structure Newcomer.Attends (x : Newcomer) (j : Nat) (w : Mesh) (past : List Report) : Prop where
  joined : w.peer? j = some x.peer
  route : w.routes.get? x.peer.id = if hasJoined x.peer past then some j else none
  broadcasts : Serves Command.enveloped x.broadcastAnswer (broadcastsFor x.peer past)
    (w.broadcasts j) (eventsAt x.peer .broadcastResult past)
  unicasts : Serves (fun i => (i.1, i.2.enveloped)) x.unicastAnswer (unicastsFor x.peer past)
    (w.unicasts j) (eventsAt x.peer .unicastResult past)

namespace Newcomer.Attends

variable {x y : Newcomer} {j k : Nat} {w w' : Mesh} {past : List Report}

theorem routed (h : x.Attends j w past) : w.Routed j ↔ hasJoined x.peer past := by
  rw [Mesh.Routed, h.joined]
  constructor
  · rintro ⟨p, hp, hr⟩
    cases hp
    rw [h.route] at hr
    by_contra hj
    rw [if_neg hj] at hr
    cases hr
  · exact fun hj => ⟨x.peer, rfl, h.route.trans (if_pos hj)⟩

theorem of_requeued (h : x.Attends j w past) {f g} (hre : Mesh.Requeued w w' f g) {r : Report}
    (hj : hasJoined x.peer (r :: past) = hasJoined x.peer past)
    (hb : Serves Command.enveloped x.broadcastAnswer (broadcastsFor x.peer (r :: past))
      (f j (w.broadcasts j)) (eventsAt x.peer .broadcastResult (r :: past)))
    (hu : Serves (fun i => (i.1, i.2.enveloped)) x.unicastAnswer (unicastsFor x.peer (r :: past))
      (g j (w.unicasts j)) (eventsAt x.peer .unicastResult (r :: past))) :
    x.Attends j w' (r :: past) := by
  have hnone : w.peer? j ≠ none := by
    rw [h.joined]
    exact Option.some_ne_none _
  refine ⟨(hre.peer? j).trans h.joined, ?_, ?_, ?_⟩
  · rw [hre.routes, hj]
    exact h.route
  · rw [hre.broadcasts fun hn => absurd hn hnone]
    exact hb
  · rw [hre.unicasts fun hn => absurd hn hnone]
    exact hu

theorem broadcast (h : x.Attends j w past) (hw : w.Sound) (hk : w.peer? k = some y.peer)
    {c : Command} {t : Token} (hsend : w.broadcast k c.enveloped t = (.ok (), w')) :
    x.Attends j w' (.broadcast y.peer c :: past) := by
  obtain ⟨p, hp, -, hre⟩ := Mesh.broadcast_ok hw hsend
  rw [hk] at hp
  cases hp
  have hmem : j ∈ w.recipients y.peer ↔ y.peer ≠ x.peer ∧ hasJoined x.peer past := by
    rw [hw.mem_recipients, h.routed, h.joined, and_comm, ne_comm]
    exact and_congr_left' (not_congr Option.some_inj)
  refine h.of_requeued hre rfl ?_ h.unicasts
  rw [broadcastsFor]
  by_cases hj : y.peer ≠ x.peer ∧ hasJoined x.peer past
  · rw [if_pos hj, if_pos (hmem.mpr hj)]
    exact h.broadcasts.push c
  · rw [if_neg hj, if_neg (mt hmem.mp hj), List.append_nil]
    exact h.broadcasts

theorem unicast (h : x.Attends j w past) (hw : w.Sound) (hk : w.peer? k = some y.peer)
    {target : PeerId} {c : Command} (hsend : w.unicast k target c.enveloped = (.ok (), w')) :
    x.Attends j w' (.unicast y.peer target c :: past) := by
  obtain ⟨p, r, hp, hr, -, hre⟩ := Mesh.unicast_ok hw hsend
  rw [hk] at hp
  cases hp
  -- Should the target be this peer, its route leads here and to no other endpoint.
  have hroute : j = r ↔ target = x.peer := by
    constructor
    · rintro rfl
      have hp := hw.route target j hr
      rw [h.joined] at hp
      exact (Option.some.inj hp).symm
    · rintro rfl
      rw [h.route] at hr
      split at hr
      · exact Option.some.inj hr
      · cases hr
  refine h.of_requeued hre rfl h.broadcasts ?_
  rw [unicastsFor]
  by_cases ht : target = x.peer
  · rw [if_pos ht, if_pos (hroute.mpr ht)]
    exact h.unicasts.push (y.peer, c)
  · rw [if_neg ht, if_neg (mt hroute.mp ht), List.append_nil]
    exact h.unicasts

variable {ν : Type} {s : Site ν}

theorem served (h : x.Attends j w past) (hy : y.interpreter.Continues s.interpreter)
    (hsame : j = k → x = y) (hother : j ≠ k → y.peer ≠ x.peer) (view : View) {payload : Bytes}
    (hread : payload :: w'.broadcasts k = w.broadcasts k)
    (hre : Mesh.Requeued w w' (fun j q => if j = k then q.tail else q) (fun _ q => q)) :
    x.Attends j w' (.emitted s.interpreter.peer (s.broadcastEvents view payload) :: past) := by
  have hpeer : s.interpreter.peer = y.peer := hy.peer
  obtain ⟨hresults, hnone⟩ := s.broadcastEvents_results view payload
  refine h.of_requeued hre rfl ?_ ?_
  · rw [broadcastsFor_emitted, eventsAt, hpeer]
    refine h.broadcasts.served (fun hj => hj ▸ hread) ?_ fun hj => if_neg (hother hj)
    rintro c hj rfl
    cases hsame hj
    rw [if_pos rfl, hresults, Site.reads, hy.maxPayload, hy.registry]
    rfl
  · rw [unicastsFor_emitted, eventsAt, hnone, ite_self, List.append_nil]
    exact h.unicasts

theorem servedUnicast (h : x.Attends j w past) (hy : y.interpreter.Continues s.interpreter)
    (hsame : j = k → x = y) (hother : j ≠ k → y.peer ≠ x.peer) {sender : PeerId}
    {payload : Bytes} (hread : (sender, payload) :: w'.unicasts k = w.unicasts k)
    (hre : Mesh.Requeued w w' (fun _ q => q) (fun j q => if j = k then q.tail else q)) :
    x.Attends j w' (.emitted s.interpreter.peer (s.unicastEvents sender payload) :: past) := by
  have hpeer : s.interpreter.peer = y.peer := hy.peer
  obtain ⟨hresults, hnone⟩ := s.unicastEvents_results sender payload
  refine h.of_requeued hre rfl ?_ ?_
  · rw [broadcastsFor_emitted, eventsAt, hnone, ite_self, List.append_nil]
    exact h.broadcasts
  · rw [unicastsFor_emitted, eventsAt, hpeer]
    refine h.unicasts.served (fun hj => hj ▸ hread) ?_ fun hj => if_neg (hother hj)
    rintro item hj hitem
    cases hitem
    cases hsame hj
    rw [if_pos rfl, hresults, Site.reads, hy.maxPayload, hy.registry]
    rfl

/-- No step of a site loses or adds anything. -/
theorem step (h : x.Attends j w past) (hw : w.Sound) {t : Task ν} {r : Option Report}
    {i : Interpreter} (hs : t.Step k s w r i w') (hy : y.interpreter.Continues s.interpreter)
    (hk : w.peer? k = some y.peer) (hsame : j = k → x = y) (hother : j ≠ k → y.peer ≠ x.peer) :
    x.Attends j w' (r.toList ++ past) := by
  have hpeer : s.interpreter.peer = y.peer := hy.peer
  cases hs with
  | quiet hi hclock => exact h
  | refused e hi hclock hstale => exact ⟨h.joined, h.route, h.broadcasts, h.unicasts⟩
  | broadcast c hi hclock hfit hc hsend =>
    rw [hpeer]
    exact h.broadcast hw hk hsend
  | unicast target name args hc hvalid hfit hsend =>
    rw [hpeer]
    exact h.unicast hw hk hsend
  | served payload hi hclock hread hdelivered hmesh =>
    exact h.served hy hsame hother w.neighbours hread hmesh
  | servedUnicast sender payload hread hdelivered hmesh =>
    exact h.servedUnicast hy hsame hother hread hmesh

theorem join (h : x.Attends j w past) {p : PeerId} (hp : p ≠ x.peer) :
    x.Attends j (w.join p).2 (.joined p :: past) := by
  refine ⟨?_, ?_, ?_, ?_⟩
  · rw [Mesh.peer?_join, if_neg (Nat.ne_of_lt (Mesh.peer?_lt h.joined)), h.joined]
  · rw [Mesh.get?_routes_join, if_neg (Ne.symm hp), hasJoined, decide_eq_false hp, Bool.false_or]
    exact h.route
  · rw [Mesh.broadcasts_join]
    exact h.broadcasts
  · rw [Mesh.unicasts_join]
    exact h.unicasts

theorem leave (h : x.Attends j w past) (p : PeerId) :
    x.Attends j (w.leave p) (.left p :: past) := by
  refine ⟨h.joined, ?_, h.broadcasts, h.unicasts⟩
  rw [Mesh.get?_routes_leave, hasJoined, h.route]
  by_cases hp : x.peer = p
  · simp [hp]
  · simp [hp, Ne.symm hp]

end Newcomer.Attends

/-- The interpreter is that of the newcomer. Its clock counts the broadcasts that were accepted, and
the mesh agrees. -/
structure Interpreter.Counts (i : Interpreter) (x : Newcomer) (w : Mesh) (past : List Report) :
    Prop where
  continues : x.interpreter.Continues i
  owner : i.clock.owner = x.peer
  count : (i.clock.get x.peer).toNat = acceptedBy x.peer past
  entry : w.last x.peer = i.clock.get x.peer

namespace Interpreter

theorem Continues.trans {i j l : Interpreter} (h : i.Continues j) (h' : j.Continues l) :
    i.Continues l :=
  ⟨h'.peer.trans h.peer, h'.registry.trans h.registry, h'.maxPayload.trans h.maxPayload,
    fun ho => h'.outbox (h.outbox ho)⟩

namespace Counts

variable {i j : Interpreter} {x : Newcomer} {k : Nat} {w w' : Mesh} {past : List Report}

theorem onlyResponds (h : i.Counts x w past) : i.OnlyResponds :=
  h.continues.outbox fun c hc => by cases hc

theorem fresh (h : i.Counts x w past) (hn : acceptedBy x.peer past < 2 ^ 64 - 1) :
    w.last i.clock.owner < i.clock.peek.counter := by
  have hpeek : i.clock.peek.counter = i.clock.get x.peer + 1 := by
    rw [VersionVector.peek, h.owner]
  have hcount := h.count
  have hone : (1 : UInt64).toNat = 1 := rfl
  rw [hpeek, h.owner, h.entry, UInt64.lt_iff_toNat_lt, UInt64.toNat_add, hone]
  omega

theorem of_last (h : i.Counts x w past) (hj : i.Continues j) (hclock : j.clock = i.clock)
    {past' : List Report} (hcount : acceptedBy x.peer past' = acceptedBy x.peer past)
    (hlast : w'.last x.peer = w.last x.peer) : j.Counts x w' past' where
  continues := h.continues.trans hj
  owner := hclock ▸ h.owner
  count := by rw [hclock, hcount, h.count]
  entry := by rw [hclock, hlast, h.entry]

variable {ν : Type} {s : Site ν}

theorem step (h : s.interpreter.Counts x w past) (hw : w.Sound)
    (hn : acceptedBy x.peer past < 2 ^ 64 - 1) {t : Task ν} {r : Option Report}
    (hs : t.Step k s w r i w') : i.Counts x w' (r.toList ++ past) := by
  have hpeer : s.interpreter.peer = x.peer := h.continues.peer
  obtain ⟨hd, hclock, hr⟩ | ⟨c, rfl, -, hd, hclock⟩ := hs.clock hw
  · exact h.of_last hs.continues hclock (acceptedBy_of_ne hr x.peer past) (Mesh.last_congr hd _)
  · -- The clock and the mesh both take the counter of the token, one above what both had.
    have hcount := h.count
    have hpeek : s.interpreter.clock.peek.counter = s.interpreter.clock.get x.peer + 1 := by
      rw [VersionVector.peek, h.owner]
    have hone : (1 : UInt64).toNat = 1 := rfl
    have hget := s.interpreter.clock.get_commit_peek (by rw [h.owner]; omega)
    rw [h.owner, ← hclock] at hget
    refine ⟨h.continues.trans hs.continues, ?_, ?_, ?_⟩
    · rw [hclock, VersionVector.owner_commit, h.owner]
    · rw [hget, hcount, hpeer]
      exact congrArg _ (if_pos rfl).symm
    · have hlast : w'.last x.peer = s.interpreter.clock.peek.counter := by
        rw [Mesh.last_of_delivered (t := s.interpreter.clock.peek) hd x.peer, ← h.owner]
        exact if_pos rfl
      rw [hlast, ← UInt64.toNat_inj, hget, hpeek, UInt64.toNat_add, hone]
      omega

theorem step_other (h : s.interpreter.Counts x w past) (hw : w.Sound) {t : Task ν}
    {r : Option Report} (hs : t.Step k s w r i w') {p : PeerId} (hp : x.peer ≠ p) :
    w'.last p = w.last p ∧ acceptedBy p (r.toList ++ past) = acceptedBy p past := by
  obtain ⟨hd, -, hr⟩ | ⟨c, rfl, -, hd, -⟩ := hs.clock hw
  · exact ⟨Mesh.last_congr hd p, acceptedBy_of_ne hr p past⟩
  · have hpeer : s.interpreter.peer ≠ p := h.continues.peer ▸ hp
    have howner : p ≠ s.interpreter.clock.owner := h.owner ▸ hp.symm
    refine ⟨?_, congrArg (acceptedBy p past + ·) (if_neg hpeer)⟩
    rw [Mesh.last_of_delivered (t := s.interpreter.clock.peek) hd p]
    exact if_neg howner

end Counts

end Interpreter

end PeerMesh
