import PeerMesh.Proofs.Cluster.Owed

namespace PeerMesh

variable {ν : Type}

namespace Survey

variable {v : Survey ν} {m : MapReduce}

namespace Regular

variable (h : v.Regular m)
include h

theorem not_asks_sent {tr : Trace ν} (htr : tr = v.past ∨ tr = v.trace) {k : Nat}
    {x : Nat × Command} (hx : x ∈ sentTo k tr) (limit : Nat) :
    asksWithin m.job limit x.2.enveloped = false := by
  have hmem : ∀ d ∈ tr, d ∈ v.past ++ v.trace := by
    intro d hd
    obtain rfl | rfl := htr
    · exact List.mem_append_left _ hd
    · exact List.mem_append_right _ hd
  rw [asksWithin, h.read_of_sent hmem hx]
  split
  · rw [Option.any_some, Bool.eq_false_iff]
    intro hasks
    obtain ⟨key, mapper, shape, hc⟩ := Command.asks_eq_true hasks
    obtain ⟨d, hd, hsent⟩ := List.mem_filterMap.mp (mem_sentTo (j := x.1) (c := x.2) hx).2
    rw [hc] at hsent
    obtain rfl | rfl := htr
    · have hwhole : (x.1, d) ∈ v.whole :=
        List.mem_append_left _ (List.mem_append_left _ (mem_deedsAt.mp hd))
      exact h.not_issued_past x.1
        (List.mem_filterMap.mpr ⟨d, hd, h.issued_of_sent hwhole hsent⟩)
    · have hwhole : (x.1, d) ∈ v.whole := List.mem_append_right _ (mem_deedsAt.mp hd)
      exact h.not_issued_trace x.1
        (List.mem_filterMap.mpr ⟨d, hd, h.issued_of_sent hwhole hsent⟩)
  · rfl

theorem not_asks_before {k : Nat} {payload : Bytes}
    (hp : payload ∈ servedAt k v.past ++ v.start.mesh.broadcasts k) (limit : Nat) :
    asksWithin m.job limit payload = false := by
  obtain ⟨x, hx, rfl⟩ := h.sent_before hp
  exact h.not_asks_sent (.inl rfl) hx limit

theorem not_asks_final {k : Nat} {payload : Bytes} (hp : payload ∈ v.final.mesh.broadcasts k) :
    asksWithin m.job (v.final.limit k) payload = false := by
  have hsound := h.sound_asked.run h.orderly_asked h.length_moves
  obtain hlt | hge := Nat.lt_or_ge k v.final.sites.length
  · have hs := List.getElem?_eq_getElem hlt
    rw [asksWithin, Bool.eq_false_iff]
    intro hasks
    obtain ⟨c, hread, hc⟩ := (Option.any_eq_true ..).mp hasks
    obtain ⟨key, mapper, shape, rfl⟩ := Command.asks_eq_true hc
    rw [Cluster.limit_eq hs, ← Site.decode_eq_ok] at hread
    exact (h.settled k _ hs).2 payload hp _ hread rfl
  · have hnil := hsound.broadcasts_of_ge hge
    rw [show (v.asked.run v.after).2 = v.final from rfl] at hnil
    rw [hnil] at hp
    cases hp

theorem read_command (limit : Nat) :
    readWithin limit (v.command m).enveloped =
      if (v.command m).crosses (v.final.limit v.initiator) limit then some (v.command m)
      else none := by
  obtain ⟨s, s', hsend⟩ := h.sending
  have hcalled : (v.initiator, .called (v.command m)) ∈ v.whole := by
    rw [whole, hsend.trace]
    exact List.mem_append_left _ (List.mem_append_right _ List.mem_cons_self)
  exact readWithin_of_fits (h.fits_of_sent hcalled rfl) trivial

/-- A site that is asked serves the command once, any other one does not. -/
theorem served_asks (k : Nat) :
    (servedAt k v.trace).filter (asksWithin m.job (v.final.limit k)) =
      if v.Asks m k then [(v.command m).enveloped] else [] := by
  obtain ⟨heard, hmem, -, hqueue⟩ := h.hears_final k
  have hstart : (v.start.mesh.broadcasts k).filter (asksWithin m.job (v.final.limit k)) = [] := by
    refine List.filter_eq_nil_iff.mpr fun p hp => ?_
    rw [h.not_asks_before (k := k) (List.mem_append_right _ hp)]
    exact Bool.false_ne_true
  have hheard : (heard.map fun x => x.2.enveloped).filter
      (asksWithin m.job (v.final.limit k)) = [] := by
    refine List.filter_eq_nil_iff.mpr fun p hp => ?_
    obtain ⟨x, hx, rfl⟩ := List.mem_map.mp hp
    rw [h.not_asks_sent (.inr rfl) (hmem x hx)]
    exact Bool.false_ne_true
  have hfinal : (v.final.mesh.broadcasts k).filter (asksWithin m.job (v.final.limit k)) = [] := by
    refine List.filter_eq_nil_iff.mpr fun p hp => ?_
    rw [h.not_asks_final hp]
    exact Bool.false_ne_true
  have hfilter := congrArg (List.filter (asksWithin m.job (v.final.limit k))) hqueue
  rw [h.broadcasts_asked, List.filter_append, List.filter_append, List.filter_append, hstart,
    hheard, hfinal, List.append_nil, List.append_nil, List.nil_append] at hfilter
  rw [← hfilter]
  by_cases hk : k ≠ v.initiator ∧ k < v.start.sites.length
  · rw [if_pos hk]
    by_cases hcross : (v.command m).crosses (v.final.limit v.initiator) (v.final.limit k)
    · rw [if_pos (show v.Asks m k from ⟨hk.1, hk.2, hcross⟩), List.filter_cons_of_pos]
      · rfl
      · rw [asksWithin, h.read_command, if_pos hcross]
        exact decide_eq_true rfl
    · rw [if_neg fun hall : v.Asks m k => hcross hall.2.2, List.filter_cons_of_neg]
      · rfl
      · rw [asksWithin, h.read_command, if_neg hcross]
        exact Bool.false_ne_true
  · rw [if_neg hk, if_neg fun hall : v.Asks m k => hk ⟨hall.1, hall.2.1⟩]
    rfl

theorem mappings_of_asks {k : Nat} (hk : v.Asks m k) :
    ∃ view s, .served view s (v.command m).enveloped ∈ deedsAt k v.trace ∧
      mappings m.job (remarksAt k v.trace) =
        mappings m.job (s.receiveCustom view m.job v.key v.mapper v.shape).2.2 := by
  have hwithin := h.within_trace k
  have hserved := h.served_asks k
  rw [if_pos hk, servedAt, List.filter_filterMap, List.filterMap_eq_cons_iff] at hserved
  obtain ⟨early, d, late, hdeeds, hearly, hd, hlate⟩ := hserved
  obtain ⟨hpayload, -⟩ := Option.filter_eq_some_iff.mp hd
  rw [hdeeds] at hwithin
  have hothers : ∀ deeds : List (Deed ν), (∀ x ∈ deeds, x.Within (v.final.limit k)) →
      (∀ x ∈ deeds, x.served?.filter (asksWithin m.job (v.final.limit k)) = none) →
      mappings m.job (deeds.flatMap Deed.remarks) = [] := by
    intro deeds hw hnone
    refine mappings_of_not_asks hw fun p hp => ?_
    obtain ⟨x, hx, hxp⟩ := List.mem_filterMap.mp hp
    exact Bool.eq_false_iff.mpr (Option.filter_eq_none_iff.mp (hnone x hx) p hxp)
  have hfirst := hothers early (fun x hx => hwithin x (List.mem_append_left _ hx)) hearly
  have hlast := hothers late
    (fun x hx => hwithin x (List.mem_append_right _ (List.mem_cons_of_mem _ hx)))
    (List.filterMap_eq_nil_iff.mp hlate)
  have hmem : d ∈ early ++ d :: late := List.mem_append_right _ List.mem_cons_self
  cases d with
  | called | forwarded | reducing | noted => cases hpayload
  | served view s payload =>
    cases hpayload
    have hlimit : s.interpreter.maxPayload = v.final.limit k := hwithin _ hmem
    have hdecode : s.decode (v.command m).enveloped =
        .ok (.custom m.job v.key v.mapper v.shape) := by
      rw [Site.decode_eq_ok, hlimit, h.read_command, if_pos hk.2.2]
      rfl
    refine ⟨view, s, ?_, ?_⟩
    · rw [hdeeds]
      exact hmem
    · rw [remarksAt, hdeeds, List.flatMap_append, List.flatMap_cons, mappings_append,
        mappings_append, hfirst, hlast, List.nil_append, List.append_nil, Deed.remarks,
        Site.receiveBroadcast_custom view hdecode]

theorem mappings_of_not_asks {k : Nat} (hk : ¬v.Asks m k) :
    mappings m.job (remarksAt k v.trace) = [] := by
  refine PeerMesh.mappings_of_not_asks (h.within_trace k) fun p hp => Bool.eq_false_iff.mpr ?_
  have hserved := h.served_asks k
  rw [if_neg hk, List.filter_eq_nil_iff] at hserved
  exact hserved p hp

theorem mappings_past (k : Nat) : mappings m.job (remarksAt k v.past) = [] := by
  have hwithin : ∀ d ∈ deedsAt k v.past, d.Within (v.final.limit k) := by
    intro d hd
    exact h.within (List.mem_append_left _ (List.mem_append_left _ (mem_deedsAt.mp hd)))
  exact PeerMesh.mappings_of_not_asks hwithin fun p hp =>
    h.not_asks_before (List.mem_append_left _ hp) _

/-- If no mapper guessed the identifier of the job, nothing waits for it. -/
theorem waiting_eq_nil {k : Nat} (hk : emissions m.job (remarksAt k v.past) = []) :
    v.asked.waiting m.job k = [] := by
  have hresponses := filter_answers_responses hk []
  rw [← h.remarksAt_asked, h.accounts_asked.responses_eq, List.filter_append] at hresponses
  exact (List.append_eq_nil_iff.mp hresponses).2

theorem queued_eq_nil (hk : ∀ k, emissions m.job (remarksAt k v.past) = []) :
    v.asked.queued m.job v.initiator = [] := by
  rw [Cluster.queued, h.broadcasts_asked, if_neg fun hne => hne.1 rfl, List.append_nil]
  refine List.filterMap_eq_nil_iff.mpr fun p hp => ?_
  obtain ⟨x, hx, rfl⟩ := h.sent_before (List.mem_append_right _ hp)
  rw [h.read_of_sent (fun d hd => List.mem_append_left _ hd) hx]
  split
  · rw [Option.bind_some]
    obtain ⟨d, hd, hsent⟩ := List.mem_filterMap.mp (mem_sentTo (j := x.1) (c := x.2) hx).2
    have hwithin := h.within (List.mem_append_left _ (List.mem_append_left _ (mem_deedsAt.mp hd)))
    cases d with
    | called c =>
      cases hsent
      exact hwithin.2 m.job
    | forwarded c sent =>
      rw [Deed.sent?] at hsent
      split at hsent
      · cases hsent
        have hresponses := filter_answers_responses (hk x.1) []
        rw [h.accounts_start.responses_eq, List.filter_append] at hresponses
        have hgone := List.filter_eq_nil_iff.mp (List.append_eq_nil_iff.mp hresponses).1 x.2
          (List.mem_filterMap.mpr ⟨_, hd, rfl⟩)
        exact Option.not_isSome_iff_eq_none.mp hgone
      · cases hsent
    | reducing | served | noted => cases hsent
  · rfl

theorem owed_of_unguessed {k : Nat} (hk : k ≠ v.initiator)
    (hpast : emissions m.job (remarksAt k v.past) = []) :
    v.owed m k = ((responses (remarksAt k v.past) (remarksAt k v.trace)).filter
      (Command.answers m.job)).filter (v.reaches k) := by
  rw [h.owed_eq hk, h.waiting_eq_nil hpast, List.nil_append]

theorem inTurn (k : Nat) :
    InTurn [] (remarksAt k v.past) ∧ InTurn (remarksAt k v.past) (remarksAt k v.trace) := by
  have hwhole : InTurn [] (remarksAt k v.whole) := by
    obtain hlt | hge := Nat.lt_or_ge k v.final.sites.length
    · exact (h.accounts_final.books k _ (List.getElem?_eq_getElem hlt)).inTurn
    · rw [remarksAt, h.accounts_final.nowhere k hge]
      trivial
  rw [whole, remarksAt_append, h.remarksAt_asked] at hwhole
  exact inTurn_append.mp hwhole

theorem owed_of_stream {k n : Nat} (hk : k ≠ v.initiator)
    (hpast : emissions m.job (remarksAt k v.past) = [])
    (hn : (n, .stream) ∈ mappings m.job (remarksAt k v.trace))
    (hown : ∀ n' ∈ emissions m.job (remarksAt k v.trace), n' = n) :
    v.owed m k = (emitted m.job (remarksAt k v.trace)).filter (v.reaches k) := by
  obtain ⟨-, hturn⟩ := h.inTurn k
  obtain ⟨-, hshape⟩ := hturn.shapeOf?_eq (mem_mappings hn)
  rw [h.owed_of_unguessed hk hpast, hturn.responses_of_stream hshape hown]

theorem owed_of_once {k n : Nat} (hk : k ≠ v.initiator)
    (hpast : emissions m.job (remarksAt k v.past) = [])
    (hn : (n, .once) ∈ mappings m.job (remarksAt k v.trace))
    (hown : ∀ n' ∈ emissions m.job (remarksAt k v.trace), n' = n)
    (hjob : ∀ j key x queued, .emitted n j key x queued ∈ remarksAt k v.trace → j = m.job) :
    v.owed m k = ((emitted m.job (remarksAt k v.trace)).take 1).filter (v.reaches k) := by
  obtain ⟨hbefore, hturn⟩ := h.inTurn k
  obtain ⟨hnone, hshape⟩ := hturn.shapeOf?_eq (mem_mappings hn)
  have hfresh := hbefore.any_isEmission (n := n) hnone
  rw [h.owed_of_unguessed hk hpast, hturn.responses_of_once hshape hown hjob, hfresh,
    if_neg Bool.false_ne_true]

theorem owed_eq_nil {k : Nat} (hk : k ≠ v.initiator)
    (hpast : emissions m.job (remarksAt k v.past) = [])
    (hown : ∀ n ∈ emissions m.job (remarksAt k v.trace),
      ∃ shape, (n, shape) ∈ mappings m.job (remarksAt k v.trace))
    (hnone : mappings m.job (remarksAt k v.trace) = []) : v.owed m k = [] := by
  have hemissions : emissions m.job (remarksAt k v.trace) = [] := by
    refine List.eq_nil_iff_forall_not_mem.mpr fun n hn => ?_
    obtain ⟨shape, hshape⟩ := hown n hn
    rw [hnone] at hshape
    cases hshape
  rw [h.owed_of_unguessed hk hpast, filter_answers_responses hemissions, List.filter_nil]

theorem job_ne {k : Nat} {m' : MapReduce} (hm : (k, .reducing m') ∈ v.past ++ v.trace) :
    m'.job ≠ m.job := by
  intro hjob
  obtain hm | hm := List.mem_append.mp hm
  · have hissued := h.issues_start.reducing k m' (mem_deedsAt.mpr hm)
    rw [hjob] at hissued
    exact h.not_issued_past k hissued
  · have hissued := h.issues_final.reducing k m' (mem_deedsAt.mpr hm)
    rw [hjob] at hissued
    exact h.not_issued_trace k hissued

end Regular

theorem owed_initiator (v : Survey ν) (m : MapReduce) : v.owed m v.initiator = [] := by
  refine List.map_eq_nil_iff.mpr (List.filter_eq_nil_iff.mpr fun y hy hk => ?_)
  obtain ⟨x, hx, hxy⟩ := List.mem_filterMap.mp hy
  split at hxy
  · obtain ⟨r, -, rfl⟩ := Option.map_eq_some_iff.mp hxy
    exact (mem_sentTo (j := x.1) (c := x.2) hx).1 (of_decide_eq_true hk)
  · cases hxy

end Survey

end PeerMesh
