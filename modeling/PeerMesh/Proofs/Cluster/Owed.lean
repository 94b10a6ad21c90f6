import Mathlib.Data.List.Basic
import PeerMesh.Proofs.Cluster.Survey
import PeerMesh.Proofs.Interpreter.Shapes

namespace PeerMesh

variable {ν : Type}

namespace Survey.Regular

variable {v : Survey ν} {m : MapReduce} (h : v.Regular m)
include h

theorem watches_final :
    v.final.WatchesAt v.initiator (v.asked.limit v.initiator) m.subscription m.job
      (Site.reducing m.job v.reducer) v.trace := by
  obtain ⟨s, s', hsend⟩ := h.sending
  have hstart : v.asked.WatchesAt v.initiator (v.asked.limit v.initiator) m.subscription m.job
      (Site.reducing m.job v.reducer) [] :=
    ⟨s', hsend.after, (Cluster.limit_eq hsend.after).symm, hsend.watches, rfl⟩
  refine Cluster.watchesAt h.sound_asked h.orderly_asked h.length_moves (fun t ht => ?_) h.keeps
    hstart
  exact h.spares t (List.mem_append_right _ (List.mem_cons_of_mem _ ht))

theorem answersIn_final :
    answersIn m.job (v.final.limit v.initiator) (v.final.mesh.broadcasts v.initiator) = [] := by
  obtain ⟨t, ht, -⟩ := h.watches_final
  refine List.filterMap_eq_nil_iff.mpr fun payload hp => ?_
  cases hr : readWithin (v.final.limit v.initiator) payload with
  | none => rfl
  | some x =>
    rw [Cluster.limit_eq ht, ← Site.decode_eq_ok] at hr
    rw [Option.bind_some]
    cases ha : x.answer? m.job with
    | none => rfl
    | some r =>
      refine absurd (Command.job?_of_answers ?_) ((h.settled _ t ht).2 payload hp x hr)
      rw [Command.answers, ha]
      rfl

theorem answersIn_sent :
    answersIn m.job (v.final.limit v.initiator)
        ((sentTo v.initiator v.trace).map fun x => x.2.enveloped) =
      (v.due m).map fun x => (x.2, .customResponse m.job x.2) := by
  rw [answersIn, List.filterMap_map, due, List.map_filterMap]
  refine List.filterMap_congr fun x hx => ?_
  have hread := h.read_of_sent (fun d hd => List.mem_append_right _ hd) hx
    (v.final.limit v.initiator)
  rw [Function.comp_apply, hread]
  split
  · rw [Option.bind_some]
    cases ha : x.2.answer? m.job with
    | none => rfl
    | some r =>
      obtain ⟨hx, hr⟩ := Command.answer?_eq_some ha
      rw [Option.map_some, Option.map_some, ← hx, ← hr]
  · rfl

/-- The reducer is called with what was pending when the command was sent and with what is due. -/
theorem reductions_eq :
    reductions m.subscription m.job (moments (remarksAt v.initiator v.trace)) =
      v.asked.queued m.job v.initiator ++
        (v.due m).map fun x => (x.2, .customResponse m.job x.2) := by
  obtain ⟨s, s', hsend⟩ := h.sending
  obtain ⟨t, ht, hlimit, -, hred⟩ := h.watches_final
  have hlt := (List.getElem?_eq_some_iff.mp hsend.before).1
  obtain ⟨heard, -, hheard, hqueue⟩ := h.hears_final v.initiator
  rw [hheard hlt] at hqueue
  have hfinal : v.final.limit v.initiator = v.asked.limit v.initiator := by
    rw [Cluster.limit_eq ht, hlimit]
  have hanswers := congrArg (answersIn m.job (v.asked.limit v.initiator)) hqueue
  have hsettled := h.answersIn_final
  have hsent := h.answersIn_sent
  rw [hfinal] at hsettled hsent
  rw [answersIn_append, answersIn_append, hsettled, hsent, List.append_nil, ← hred] at hanswers
  exact hanswers.symm

theorem remarksAt_asked (k : Nat) :
    remarksAt k (v.past ++ (v.start.perform v.ask).1) = remarksAt k v.past := by
  obtain ⟨s, s', hsend⟩ := h.sending
  rw [remarksAt_append, hsend.trace]
  by_cases hk : v.initiator = k
  · subst hk
    exact (congrArg (remarksAt _ v.past ++ ·) (remarksAt_self _ [.called (v.command m),
      .reducing m])).trans (List.append_nil _)
  · exact (congrArg (remarksAt _ v.past ++ ·) (remarksAt_other hk [.called (v.command m),
      .reducing m])).trans (List.append_nil _)

theorem gone_eq (k : Nat) :
    v.asked.outboxAt k ++ responses (remarksAt k v.past) (remarksAt k v.trace) =
      goneFrom k v.trace ++ v.final.outboxAt k := by
  have hasked := h.accounts_asked.responses_eq k
  have hfinal := h.accounts_final.responses_eq k
  rw [h.remarksAt_asked] at hasked
  rw [whole, remarksAt_append, h.remarksAt_asked, responses_append, List.nil_append, hasked,
    goneFrom_append k (v.past ++ _) v.trace, List.append_assoc, List.append_assoc] at hfinal
  exact List.append_cancel_left hfinal

theorem not_answers_final (k : Nat) : (v.final.outboxAt k).filter (Command.answers m.job) = [] := by
  refine List.filter_eq_nil_iff.mpr fun x hx ha => ?_
  cases hs : v.final.sites[k]? with
  | none =>
    rw [Cluster.outboxAt, hs] at hx
    cases hx
  | some s =>
    rw [Cluster.outboxAt_eq hs] at hx
    exact (h.settled k s hs).1 x hx (Command.job?_of_answers ha)

end Survey.Regular

theorem filter_sent_eq {job : JobId} {sender receiver : Nat} {deeds : List (Deed ν)}
    (h : ∀ d ∈ deeds, d.Within sender) :
    ((deeds.filterMap Deed.sent?).filter (Command.answers job)).filter
        (Command.crosses sender receiver) =
      ((deeds.filterMap Deed.gone?).filter (Command.answers job)).filter
        (Command.crosses sender receiver) := by
  induction deeds with
  | nil => rfl
  | cons d deeds ih =>
    have ih := ih fun d' hd' => h d' (List.mem_cons_of_mem _ hd')
    have hd := h d List.mem_cons_self
    rw [List.filterMap_cons, List.filterMap_cons]
    cases d with
    | called c =>
      have hc : c.answers job = false := by
        rw [Command.answers, hd.2 job]
        rfl
      dsimp only [Deed.sent?, Deed.gone?]
      rw [List.filter_cons_of_neg (by rw [hc]; exact Bool.false_ne_true)]
      exact ih
    | forwarded c sent =>
      dsimp only [Deed.sent?, Deed.gone?]
      cases sent with
      | true =>
        rw [if_pos rfl]
        dsimp only
        rw [List.filter_cons, List.filter_cons]
        split
        · rw [List.filter_cons, List.filter_cons, ih]
        · exact ih
      | false =>
        have hc : c.crosses sender receiver = false := by
          rw [Command.crosses, ← show false = c.fits sender from hd]
          rfl
        rw [if_neg Bool.false_ne_true]
        dsimp only
        rw [ih, List.filter_cons]
        split
        · rw [List.filter_cons_of_neg (by rw [hc]; exact Bool.false_ne_true)]
        · rfl
    | reducing | served | noted => exact ih

def asksWithin (job : JobId) (limit : Nat) (payload : Bytes) : Bool :=
  (readWithin limit payload).any (Command.asks job)

theorem mappings_of_not_asks {job : JobId} {limit : Nat} {deeds : List (Deed ν)}
    (hwithin : ∀ d ∈ deeds, d.Within limit)
    (h : ∀ p ∈ deeds.filterMap Deed.served?, asksWithin job limit p = false) :
    mappings job (deeds.flatMap Deed.remarks) = [] := by
  induction deeds with
  | nil => rfl
  | cons d deeds ih =>
    have hd := hwithin d List.mem_cons_self
    have hrest := ih fun d' hd' => hwithin d' (List.mem_cons_of_mem _ hd')
    rw [List.flatMap_cons, mappings_append, hrest]
    · rw [List.append_nil]
      cases d with
      | called | forwarded | reducing => rfl
      | noted log => exact hd job
      | served view s payload =>
        refine Site.receiveBroadcast_mappings_of_ne view fun key mapper shape hdecode => ?_
        have hread := Site.decode_eq_ok.mp hdecode
        have hasks := h payload List.mem_cons_self
        rw [show s.interpreter.maxPayload = limit from hd] at hread
        rw [asksWithin, hread, Option.any_some, Command.asks, decide_eq_true rfl] at hasks
        cases hasks
    · intro p hp
      refine h p ?_
      rw [List.filterMap_cons]
      split
      · exact hp
      · exact List.mem_cons_of_mem _ hp

namespace Survey

/-- The site is another one that was joined when the command was sent, and can read it. -/
def Asks (v : Survey ν) (m : MapReduce) (k : Nat) : Prop :=
  k ≠ v.initiator ∧ k < v.start.sites.length ∧
    (v.command m).crosses (v.final.limit v.initiator) (v.final.limit k)

instance (v : Survey ν) (m : MapReduce) (k : Nat) : Decidable (v.Asks m k) :=
  inferInstanceAs (Decidable (_ ∧ _ ∧ _))

/-- What a site owes to the job, as it was sent. -/
def owed (v : Survey ν) (m : MapReduce) (k : Nat) : List Command :=
  ((v.due m).filter fun x => x.1 = k).map fun x => .customResponse m.job x.2

/-- The site that asked reads it. -/
def reaches (v : Survey ν) (k : Nat) : Command → Bool :=
  Command.crosses (v.final.limit k) (v.final.limit v.initiator)

variable {v : Survey ν} {m : MapReduce}

theorem owed_eq_filter (k : Nat) :
    v.owed m k = ((((sentTo v.initiator v.trace).filter fun x => x.1 = k).map Prod.snd).filter
      (Command.answers m.job)).filter (v.reaches k) := by
  rw [owed, due, reaches]
  generalize sentTo v.initiator v.trace = sent
  induction sent with
  | nil => rfl
  | cons x sent ih =>
    rw [List.filterMap_cons, List.filter_cons]
    by_cases hk : x.1 = k
    · rw [if_pos (decide_eq_true hk), List.map_cons, List.filter_cons, hk]
      cases ha : x.2.answer? m.job with
      | none =>
        have hnot : x.2.answers m.job = false := by
          rw [Command.answers, ha]
          rfl
        rw [hnot, if_neg Bool.false_ne_true, Option.map_none, ite_self]
        exact ih
      | some r =>
        have hyes : x.2.answers m.job = true := by
          rw [Command.answers, ha]
          rfl
        rw [hyes, if_pos rfl, List.filter_cons, Option.map_some]
        by_cases hc : x.2.crosses (v.final.limit k) (v.final.limit v.initiator)
        · rw [if_pos hc, if_pos hc]
          dsimp only
          rw [List.filter_cons, if_pos (decide_eq_true rfl), List.map_cons, ih,
            ← (Command.answer?_eq_some ha).1]
        · rw [if_neg hc, if_neg hc]
          exact ih
    · have hneg : ¬decide (x.1 = k) = true := fun h => hk (of_decide_eq_true h)
      rw [if_neg hneg, ← ih]
      split
      · rfl
      · next y hy =>
        rw [List.filter_cons_of_neg]
        intro hyk
        split at hy
        · obtain ⟨r, -, rfl⟩ := Option.map_eq_some_iff.mp hy
          exact hneg hyk
        · cases hy

namespace Regular

variable (h : v.Regular m)
include h

theorem within_trace (k : Nat) : ∀ d ∈ deedsAt k v.trace, d.Within (v.final.limit k) :=
  fun _ hd => h.within (List.mem_append_right _ (mem_deedsAt.mp hd))

/-- Every response that a peer lets through is due, if it crosses to the site that asked. -/
theorem owed_eq {k : Nat} (hk : k ≠ v.initiator) :
    v.owed m k = (v.asked.waiting m.job k ++
      (responses (remarksAt k v.past) (remarksAt k v.trace)).filter
        (Command.answers m.job)).filter (v.reaches k) := by
  have hwithin := h.within_trace k
  have hgone := congrArg (List.filter (Command.answers m.job)) (h.gone_eq k)
  rw [List.filter_append, List.filter_append, h.not_answers_final, List.append_nil] at hgone
  rw [owed_eq_filter, filter_sentTo hk, reaches, filter_sent_eq hwithin, Cluster.waiting, hgone]
  rfl

end Regular

end Survey

end PeerMesh
