import PeerMesh.Proofs.Mesh.History

namespace PeerMesh.Mesh

def meshAfter (acts : List Act) : Mesh :=
  (runActs acts empty []).1

def historyOf (acts : List Act) : List Record :=
  (runActs acts empty []).2

theorem tracks (acts : List Act) : Tracks (meshAfter acts) (historyOf acts) :=
  Tracks.start.runActs acts

def IsNew (t : Token) (past : List Record) : Prop :=
  0 < t.counter ∧
    ∀ s ∈ sendings past, s.token.origin = t.origin → s.token.counter < t.counter

namespace Tracks

variable {m : Mesh} {past : List Record}

theorem isNew_iff (h : Tracks m past) (t : Token) : IsNew t past ↔ m.last t.origin < t.counter := by
  constructor
  · rintro ⟨hpos, hnew⟩
    obtain hlast | ⟨s, hs, ho, hlast⟩ := h.reached t.origin
    · rw [hlast]
      exact hpos
    · rw [← hlast]
      exact hnew s hs ho
  · intro hlt
    refine ⟨UInt64.lt_of_le_of_lt UInt64.zero_le hlt, fun s hs ho => ?_⟩
    have hle := h.seen s hs
    rw [ho] at hle
    exact UInt64.lt_of_le_of_lt hle hlt

theorem broadcast_result (h : Tracks m past) {ep : Nat} (hep : peerOf? ep past ≠ none)
    (payload : Bytes) (t : Token) :
    (IsNew t past → (m.broadcast ep payload t).1 = .ok ()) ∧
      (¬IsNew t past → m.broadcast ep payload t = (.error (.staleToken t), m)) := by
  rw [h.isNew_iff]
  obtain ⟨he, -⟩ | ⟨hle, hb⟩ | ⟨p, m', -, hlt, hb, -⟩ := broadcast_cases h.sound ep payload t
  · rw [← h.peers, peer?, he] at hep
    exact absurd rfl hep
  · refine ⟨fun hlt => absurd hle (UInt64.not_le.mpr hlt), fun _ => hb⟩
  · rw [hb]
    exact ⟨fun _ => rfl, fun hnew => absurd hlt hnew⟩

theorem broadcast_error (h : Tracks m past) {ep : Nat} {payload : Bytes} {t : Token}
    {e : TransportError} (he : (m.broadcast ep payload t).1 = .error e) :
    (m.broadcast ep payload t).2 = m := by
  obtain ⟨-, hb⟩ | ⟨-, hb⟩ | ⟨p, m', -, -, hb, -⟩ := broadcast_cases h.sound ep payload t
  · rw [hb]
  · rw [hb]
  · rw [hb] at he
    cases he

theorem counters_pairwise (h : Tracks m past) (p : PeerId) :
    (((sendings past).filter fun s => s.token.origin = p).map fun s =>
      s.token.counter).Pairwise (· < ·) := by
  refine List.pairwise_map.mpr ((h.increasing.filter _).imp_of_mem ?_)
  intro s t hs ht hlt
  have hs := of_decide_eq_true (List.mem_filter.mp hs).2
  have ht := of_decide_eq_true (List.mem_filter.mp ht).2
  exact hlt (hs.trans ht.symm)

end Tracks

theorem sendings_split {past : List Record} {s : Sending} (hs : s ∈ sendings past) :
    ∃ later, sendings past = sendings s.past ++ s :: later := by
  induction past with
  | nil => cases hs
  | cons r past ih =>
    cases r with
    | broadcast ep payload token result =>
      cases result with
      | error e => exact ih hs
      | ok u =>
        obtain hs | hs := List.mem_append.mp hs
        · obtain ⟨later, hlater⟩ := ih hs
          refine ⟨later ++ [⟨ep, payload, token, past⟩], ?_⟩
          rw [sendings, hlater, List.append_assoc, List.cons_append]
        · cases List.mem_singleton.mp hs
          exact ⟨[], rfl⟩
    | joined | left | unicast | gotBroadcast | gotUnicast => exact ih hs

theorem sending_tracks {acts : List Act} {m : Mesh} {past : List Record} (h : Tracks m past)
    {s : Sending} (hs : s ∈ sendings (runActs acts m past).2) :
    s ∈ sendings past ∨ ∃ m', Tracks m' s.past := by
  induction acts generalizing m past with
  | nil => exact .inl hs
  | cons a acts ih =>
    obtain hs | htracks := ih (h.perform a) hs
    · cases a with
      | broadcast ep payload token =>
        rw [Act.perform] at hs
        cases hb : (m.broadcast ep payload token).1 with
        | error e =>
          dsimp only at hs
          rw [hb] at hs
          exact .inl hs
        | ok u =>
          dsimp only at hs
          rw [hb] at hs
          obtain hs | hs := List.mem_append.mp hs
          · exact .inl hs
          · cases List.mem_singleton.mp hs
            exact .inr ⟨m, h⟩
      | join | leave | unicast | receiveBroadcast | receiveUnicast => exact .inl hs
    · exact .inr htracks

theorem received_isPrefix {m : Mesh} {past : List Record} (h : Tracks m past) (ep : Nat) :
    receivedBroadcasts ep past <+:
      ((sendings past).filter (Sending.isFor ep)).map Sending.payload :=
  ⟨m.broadcasts ep, h.broadcasts ep⟩

/-- All that was found on the broadcast side of an endpoint. -/
def foundBroadcasts (ep : Nat) : List Record → List (Received Bytes)
  | [] => []
  | .gotBroadcast j found :: past =>
    foundBroadcasts ep past ++ if ep = j then [found] else []
  | _ :: past => foundBroadcasts ep past

def foundUnicasts (ep : Nat) : List Record → List (Received (PeerId × Bytes))
  | [] => []
  | .gotUnicast j found :: past =>
    foundUnicasts ep past ++ if ep = j then [found] else []
  | _ :: past => foundUnicasts ep past

/-- What `n` receipts find where nothing more is queued: the queue, and then that it is closed. -/
def drained {α : Type} (queue : List α) (n : Nat) : List (Received α) :=
  (queue.map Received.item ++ List.replicate n Received.closed).take n

theorem drained_cons {α : Type} (a : α) (queue : List α) (n : Nat) :
    drained (a :: queue) (n + 1) = .item a :: drained queue n := by
  have hlen : n ≤ (queue.map Received.item ++ List.replicate n Received.closed).length := by
    rw [List.length_append, List.length_replicate]
    exact Nat.le_add_left _ _
  rw [drained, List.map_cons, List.cons_append, List.take_succ_cons, List.replicate_succ',
    ← List.append_assoc, List.take_append_of_le_length hlen, drained]

theorem drained_nil {α : Type} (n : Nat) :
    drained ([] : List α) (n + 1) = Received.closed :: drained [] n := by
  rw [drained, drained, List.map_nil, List.nil_append, List.replicate_succ, List.take_succ_cons,
    List.nil_append]

/-- The endpoint was given to a peer, and is not its current one. -/
def Retired (ep : Nat) (past : List Record) : Prop :=
  peerOf? ep past ≠ none ∧ isCurrent ep past = false

namespace Retired

variable {ep : Nat} {m : Mesh} {past : List Record}

theorem perform (hr : Retired ep past) (h : Tracks m past) (a : Act) :
    Retired ep ((a.perform m).1 :: past) := by
  have hpeer := hr.1
  have hcurrent := hr.2
  obtain ⟨q, hq⟩ := Option.ne_none_iff_exists'.mp hpeer
  rw [isCurrent, hq] at hcurrent
  have hne := ne_of_beq_false hcurrent
  cases a with
  | join p =>
    have hlt : ep < m.endpoints.length := peer?_lt ((h.peers ep).trans hq)
    have hq' : peerOf? ep (.joined (m.join p).1 p :: past) = some q :=
      (if_neg (Nat.ne_of_lt hlt)).trans hq
    refine ⟨fun hnone => ?_, ?_⟩
    · rw [Act.perform, hq'] at hnone
      cases hnone
    · rw [Act.perform, isCurrent, hq']
      refine beq_false_of_ne ?_
      rw [current?]
      split
      · exact fun he => Nat.ne_of_gt hlt (Option.some.inj he)
      · exact hne
  | leave p =>
    refine ⟨hpeer, ?_⟩
    have hq' : peerOf? ep (.left p :: past) = some q := hq
    rw [Act.perform, isCurrent, hq']
    refine beq_false_of_ne ?_
    rw [current?]
    split
    · simp
    · exact hne
  | broadcast | unicast | receiveBroadcast | receiveUnicast => exact hr

theorem sendings_perform (hr : Retired ep past) (m : Mesh) (a : Act) :
    (sendings ((a.perform m).1 :: past)).filter (Sending.isFor ep) =
      (sendings past).filter (Sending.isFor ep) := by
  cases a with
  | broadcast j payload token =>
    show (sendings (.broadcast j payload token (m.broadcast j payload token).1 :: past)).filter
      (Sending.isFor ep) = _
    cases (m.broadcast j payload token).1 with
    | error e => rfl
    | ok u =>
      rw [sendings, List.filter_append, List.filter_cons_of_neg]
      · exact List.append_nil _
      · rw [Sending.isFor, hr.2]
        simp
  | join | leave | unicast | receiveBroadcast | receiveUnicast => rfl

theorem parcels_perform (hr : Retired ep past) (h : Tracks m past) (a : Act) :
    (parcels ((a.perform m).1 :: past)).filter (Parcel.isFor ep) =
      (parcels past).filter (Parcel.isFor ep) := by
  cases a with
  | unicast j target payload =>
    show (parcels (.unicast j target payload (m.unicast j target payload).1 :: past)).filter
      (Parcel.isFor ep) = _
    cases (m.unicast j target payload).1 with
    | error e => rfl
    | ok u =>
      rw [parcels, List.filter_append, List.filter_cons_of_neg]
      · exact List.append_nil _
      · intro hfor
        rw [Parcel.isFor, beq_iff_eq, ← h.routes] at hfor
        have hcurrent := (h.isCurrent_iff ep).mpr ⟨target, h.sound.route target ep hfor, hfor⟩
        rw [hr.2] at hcurrent
        cases hcurrent
  | join | leave | broadcast | receiveBroadcast | receiveUnicast => rfl

theorem broadcasts_perform (hr : Retired ep past) (h : Tracks m past) {a : Act}
    (ha : a ≠ .receiveBroadcast ep) : (a.perform m).2.broadcasts ep = m.broadcasts ep := by
  have hreceived :
      receivedBroadcasts ep ((a.perform m).1 :: past) = receivedBroadcasts ep past := by
    cases a with
    | receiveBroadcast j =>
      have hj : ep ≠ j := fun he => ha (congrArg Act.receiveBroadcast he.symm)
      show receivedBroadcasts ep (.gotBroadcast j (m.receiveBroadcast j).1 :: past) = _
      cases (m.receiveBroadcast j).1 with
      | item payload => rw [receivedBroadcasts, if_neg hj, List.append_nil]
      | empty | closed => rfl
    | join | leave | broadcast | unicast | receiveUnicast => rfl
  have hafter := (h.perform a).broadcasts ep
  rw [hr.sendings_perform, hreceived, ← h.broadcasts ep] at hafter
  exact List.append_cancel_left hafter

theorem unicasts_perform (hr : Retired ep past) (h : Tracks m past) {a : Act}
    (ha : a ≠ .receiveUnicast ep) : (a.perform m).2.unicasts ep = m.unicasts ep := by
  have hreceived : receivedUnicasts ep ((a.perform m).1 :: past) = receivedUnicasts ep past := by
    cases a with
    | receiveUnicast j =>
      have hj : ep ≠ j := fun he => ha (congrArg Act.receiveUnicast he.symm)
      show receivedUnicasts ep (.gotUnicast j (m.receiveUnicast j).1 :: past) = _
      cases (m.receiveUnicast j).1 with
      | item item => rw [receivedUnicasts, if_neg hj, List.append_nil]
      | empty | closed => rfl
    | join | leave | broadcast | unicast | receiveBroadcast => rfl
  have hafter := (h.perform a).unicasts ep
  rw [hr.parcels_perform h, hreceived, ← h.unicasts ep] at hafter
  refine List.append_cancel_left ((List.map_inj_right ?_).mp hafter)
  rintro ⟨p, bs⟩ ⟨q, cs⟩ he
  cases he
  rfl

theorem not_routed (hr : Retired ep past) (h : Tracks m past) : ¬m.Routed ep := by
  intro hrouted
  have hcurrent := (h.isCurrent_iff ep).mpr hrouted
  rw [hr.2] at hcurrent
  cases hcurrent

theorem foundBroadcasts_runActs (hr : Retired ep past) (h : Tracks m past) (acts : List Act) :
    ∃ n, foundBroadcasts ep (runActs acts m past).2 =
      foundBroadcasts ep past ++ drained (m.broadcasts ep) n := by
  induction acts generalizing m past with
  | nil => exact ⟨0, (List.append_nil _).symm⟩
  | cons a acts ih =>
    obtain ⟨n, hn⟩ := ih (hr.perform h a) (h.perform a)
    by_cases ha : a = .receiveBroadcast ep
    · subst ha
      refine ⟨n + 1, hn.trans ?_⟩
      rw [Act.perform]
      obtain ⟨payload, m', hq, hg, -, -⟩ | ⟨-, hrouted, -⟩ | ⟨hq, -, hg⟩ :=
        m.receiveBroadcast_cases ep
      · rw [hg, ← hq, drained_cons, foundBroadcasts, if_pos rfl, List.append_assoc]
        rfl
      · exact absurd hrouted (hr.not_routed h)
      · rw [hg, hq, drained_nil, foundBroadcasts, if_pos rfl, List.append_assoc]
        rfl
    · refine ⟨n, hn.trans ?_⟩
      rw [hr.broadcasts_perform h ha]
      cases a with
      | receiveBroadcast j =>
        have hj : ep ≠ j := fun he => ha (congrArg Act.receiveBroadcast he.symm)
        rw [Act.perform]
        dsimp only
        rw [foundBroadcasts, if_neg hj, List.append_nil]
      | join | leave | broadcast | unicast | receiveUnicast => rfl

theorem foundUnicasts_runActs (hr : Retired ep past) (h : Tracks m past) (acts : List Act) :
    ∃ n, foundUnicasts ep (runActs acts m past).2 =
      foundUnicasts ep past ++ drained (m.unicasts ep) n := by
  induction acts generalizing m past with
  | nil => exact ⟨0, (List.append_nil _).symm⟩
  | cons a acts ih =>
    obtain ⟨n, hn⟩ := ih (hr.perform h a) (h.perform a)
    by_cases ha : a = .receiveUnicast ep
    · subst ha
      refine ⟨n + 1, hn.trans ?_⟩
      rw [Act.perform]
      obtain ⟨item, m', hq, hg, -, -⟩ | ⟨-, hrouted, -⟩ | ⟨hq, -, hg⟩ := m.receiveUnicast_cases ep
      · rw [hg, ← hq, drained_cons, foundUnicasts, if_pos rfl, List.append_assoc]
        rfl
      · exact absurd hrouted (hr.not_routed h)
      · rw [hg, hq, drained_nil, foundUnicasts, if_pos rfl, List.append_assoc]
        rfl
    · refine ⟨n, hn.trans ?_⟩
      rw [hr.unicasts_perform h ha]
      cases a with
      | receiveUnicast j =>
        have hj : ep ≠ j := fun he => ha (congrArg Act.receiveUnicast he.symm)
        rw [Act.perform]
        dsimp only
        rw [foundUnicasts, if_neg hj, List.append_nil]
      | join | leave | broadcast | unicast | receiveBroadcast => rfl

end Retired

/-- Every endpoint gets what was accepted for it while it was the current one of its peer, once and
in the one order of acceptance. -/
theorem delivery (acts : List Act) :
    -- The accepted counters of an origin go up.
    (∀ p, (((sendings (historyOf acts)).filter fun s => s.token.origin = p).map fun s =>
      s.token.counter).Pairwise (· < ·)) ∧
    -- What is not new is refused, and what is refused reaches nobody.
    (∀ ep payload t, peerOf? ep (historyOf acts) ≠ none →
      (IsNew t (historyOf acts) → ((meshAfter acts).broadcast ep payload t).1 = .ok ()) ∧
      (¬IsNew t (historyOf acts) →
        (meshAfter acts).broadcast ep payload t = (.error (.staleToken t), meshAfter acts))) ∧
    (∀ ep payload t e, ((meshAfter acts).broadcast ep payload t).1 = .error e →
      ((meshAfter acts).broadcast ep payload t).2 = meshAfter acts) ∧
    -- Both sides of every endpoint: received and queued together are what is due.
    (∀ ep, receivedBroadcasts ep (historyOf acts) ++ (meshAfter acts).broadcasts ep =
      ((sendings (historyOf acts)).filter (Sending.isFor ep)).map Sending.payload) ∧
    (∀ ep, (receivedUnicasts ep (historyOf acts) ++ (meshAfter acts).unicasts ep).map
        (fun i => (some i.1, i.2)) =
      ((parcels (historyOf acts)).filter (Parcel.isFor ep)).map Parcel.content) ∧
    -- What was received anywhere before a broadcast was sent comes before it in the order.
    (∀ s ∈ sendings (historyOf acts),
      (∃ later, sendings (historyOf acts) = sendings s.past ++ s :: later) ∧
      ∀ ep, receivedBroadcasts ep s.past <+:
        ((sendings s.past).filter (Sending.isFor ep)).map Sending.payload) ∧
    -- After a peer left or joined again, its old endpoint drains and then is closed.
    (∀ ep, Retired ep (historyOf acts) → ∀ more,
      (∃ n, foundBroadcasts ep (historyOf (acts ++ more)) =
        foundBroadcasts ep (historyOf acts) ++ drained ((meshAfter acts).broadcasts ep) n) ∧
      (∃ n, foundUnicasts ep (historyOf (acts ++ more)) =
        foundUnicasts ep (historyOf acts) ++ drained ((meshAfter acts).unicasts ep) n)) := by
  have h := tracks acts
  refine ⟨h.counters_pairwise, ?_, ?_, h.broadcasts, h.unicasts, ?_, ?_⟩
  · intro ep payload t hep
    exact h.broadcast_result hep payload t
  · intro ep payload t e he
    exact h.broadcast_error he
  · intro s hs
    refine ⟨sendings_split hs, fun ep => ?_⟩
    obtain hs | ⟨m', h'⟩ := sending_tracks Tracks.start hs
    · cases hs
    · exact received_isPrefix h' ep
  · intro ep hr more
    have hmore : historyOf (acts ++ more) = (runActs more (meshAfter acts) (historyOf acts)).2 := by
      rw [historyOf, runActs, List.foldl_append]
      rfl
    rw [hmore]
    exact ⟨hr.foundBroadcasts_runActs h more, hr.foundUnicasts_runActs h more⟩

end PeerMesh.Mesh
