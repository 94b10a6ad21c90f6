import Mathlib.Data.List.Nodup
import PeerMesh.Proofs.Cluster.Faithful

namespace PeerMesh

open Json (Written)

def Outcome.isMismatch : Outcome → Bool
  | .error (.methodNotFound _) => true
  | .error (.badArgumentCount ..) => true
  | _ => false

namespace Registry

variable {r : Registry} {name : String} {args : List Val}

theorem invoke_of_validate (h : r.validate name args = .ok ()) :
    ∃ op, r.operation? name = some op ∧ r.invoke name args = (op.body args).outcome := by
  rw [validate] at h
  split at h
  · cases h
  · split at h
    · cases h
    · next expected harity =>
      obtain ⟨op, hop, rfl⟩ := Option.map_eq_some_iff.mp harity
      split at h
      · next heq =>
        refine ⟨op, hop, ?_⟩
        rw [invoke, hop]
        exact if_pos heq
      · cases h

theorem isMismatch_outcome (e : Ending) : e.outcome.isMismatch = false := by
  cases e with
  | value | failure | panic => rfl

theorem isMismatch_of_validate (h : r.validate name args = .ok ()) :
    (r.invoke name args).isMismatch = false := by
  obtain ⟨op, -, hinvoke⟩ := invoke_of_validate h
  rw [hinvoke, isMismatch_outcome]

theorem command_of_callEvent? {c : Command} {e : Event} (h : r.callEvent? c = some e) :
    e.command = c := by
  cases c with
  | rpc name args =>
    cases h
    rfl
  | custom | customResponse => cases h

theorem command_of_unicastEvent? {sender : PeerId} {c : Command} {e : Event}
    (h : r.unicastEvent? sender c = some e) : e.command = c := by
  cases c with
  | rpc name args =>
    cases h
    rfl
  | custom | customResponse => cases h

end Registry

namespace Command

/-- The wire takes commands of this depth. -/
def isShallow (c : Command) : Bool :=
  c.nesting ≤ 127

def operation? : Command → Option String
  | rpc name _ => some name
  | _ => none

def isTexts : Command → Bool
  | rpc _ args => args.all fun v => v.string?.isSome
  | _ => false

theorem canonical_of_isTexts {c : Command} (h : c.isTexts) : c.Canonical := by
  cases c with
  | rpc name args =>
    intro v hv
    have hs := List.all_eq_true.mp h v hv
    cases v with
    | string => trivial
    | unit | bool | s64 | f64 | list | map => cases hs
  | custom | customResponse => cases h

end Command

namespace Newcomer

variable {x : Newcomer}

/-- The peer reads the command. -/
def admits (x : Newcomer) (c : Command) : Bool :=
  c.isShallow && c.enveloped.length ≤ x.maxPayload

theorem admits_iff {c : Command} :
    x.admits c ↔ c.enveloped.length ≤ x.maxPayload ∧ c.nesting ≤ Written.depthLimit := by
  rw [admits, Bool.and_eq_true, Command.isShallow, decide_eq_true_iff, decide_eq_true_iff,
    and_comm]
  rfl

theorem filter_answer {event? : Command → Option Event}
    (hevent : ∀ {c e}, event? c = some e → e.command = c) {c : Command} (hf : c.isFinite)
    (hc : c.Canonical) :
    ((readWithin x.maxPayload c.enveloped).bind event?).filter (fun e => e.command.isShallow) =
      if x.admits c then event? c else none := by
  rw [readWithin_enveloped hf hc]
  by_cases h : x.admits c
  · rw [if_pos (admits_iff.mp h), if_pos h, Option.bind_some]
    cases he : event? c with
    | none => rfl
    | some e =>
      have hshallow : e.command.isShallow := by
        rw [hevent he]
        exact (Bool.and_eq_true_iff.mp h).1
      exact if_pos hshallow
  · rw [if_neg (mt admits_iff.mpr h), if_neg h]
    rfl

end Newcomer

/-- Of the events that have answers of the kind, the same are left if what is not admitted is left
out before. -/
theorem Serves.filtered {α β : Type} {code : α → β} {answer event? : α → Option Event}
    {admits : α → Bool} {due : List α} {queue : List β} {events : List Event}
    (h : Serves code answer due queue events)
    (hanswer : ∀ a ∈ due, (answer a).filter (fun e => e.command.isShallow) =
      if admits a then event? a else none) :
    ∃ heard waiting, due = heard ++ waiting ∧ queue = waiting.map code ∧
      (events.filter fun e => e.command.isShallow) = (heard.filter admits).filterMap event? := by
  obtain ⟨heard, waiting, hdue, hqueue, rfl⟩ := h
  refine ⟨heard, waiting, hdue, hqueue, ?_⟩
  rw [List.filter_filterMap, List.filterMap_filter]
  exact List.filterMap_congr fun a ha => hanswer a (hdue ▸ List.mem_append_left _ ha)

theorem mem_broadcastsFor {p : PeerId} {c : Command} {past : List Report}
    (h : c ∈ broadcastsFor p past) : ∃ sender, .broadcast sender c ∈ past := by
  induction past with
  | nil => cases h
  | cons r past ih =>
    have hold : c ∈ broadcastsFor p past → ∃ sender, .broadcast sender c ∈ r :: past :=
      fun h => (ih h).imp fun sender hs => List.mem_cons_of_mem _ hs
    cases r with
    | broadcast sender c' =>
      obtain h | h := List.mem_append.mp h
      · exact hold h
      · split at h
        · cases List.mem_singleton.mp h
          exact ⟨sender, List.mem_cons_self⟩
        · cases h
    | joined | left | unicast | refused | emitted => exact hold h

theorem mem_unicastsFor {p sender : PeerId} {c : Command} {past : List Report}
    (h : (sender, c) ∈ unicastsFor p past) : .unicast sender p c ∈ past := by
  induction past with
  | nil => cases h
  | cons r past ih =>
    have hold : (sender, c) ∈ unicastsFor p past → .unicast sender p c ∈ r :: past :=
      fun h => List.mem_cons_of_mem _ (ih h)
    cases r with
    | unicast sender' target c' =>
      obtain h | h := List.mem_append.mp h
      · exact hold h
      · split at h
        · next ht =>
          cases List.mem_singleton.mp h
          cases ht
          exact List.mem_cons_self
        · cases h
    | joined | left | broadcast | refused | emitted => exact hold h

/-- What the peer has made known of the calls that were accepted for it, and what it has not served
yet. -/
structure Newcomer.Answers (x : Newcomer) (k : Nat) (w : Mesh) (past : List Report) : Prop where
  broadcasts : ∃ heard waiting, broadcastsFor x.peer past = heard ++ waiting ∧
    w.broadcasts k = waiting.map Command.enveloped ∧
    ((eventsAt x.peer .broadcastResult past).filter fun e => e.command.isShallow) =
      (heard.filter x.admits).filterMap x.registry.callEvent?
  unicasts : ∃ heard waiting, unicastsFor x.peer past = heard ++ waiting ∧
    w.unicasts k = waiting.map (fun i => (i.1, i.2.enveloped)) ∧
    ((eventsAt x.peer .unicastResult past).filter fun e => e.command.isShallow) =
      (heard.filter fun i => x.admits i.2).filterMap fun i => x.registry.unicastEvent? i.1 i.2

namespace Cluster

variable {ν : Type}

/-- However joins, leaves and the steps of all peers interleave: no broadcast is taken for a stale
one, and the results that a peer makes known are those of its own registry for the calls of others
that it has served, in the order in which they were accepted, except for calls above its limit. No
call above the limit of its sender is accepted, and none that an equal registry does not have. Of
calls that nest too deep for the wire nothing is said. Values are canonical: their maps hold each
name once, in ascending order. Every peer is assumed to have a hub of its own, to run operations
that are functions of their arguments, and to read each float exactly as it was written. -/
theorem calls_answered {moves : List (Move ν)}
    (hpeers : ((newcomers moves).map Newcomer.peer).Nodup)
    (hcount : ∀ p, acceptedBy p (empty.reports moves []) < 2 ^ 64 - 1)
    (hcanonical : ∀ r ∈ empty.reports moves [], ∀ sender c,
      r.sending? = some (sender, c) → c.Canonical) :
    (∀ p t, .refused p (.transport (.staleToken t)) ∉ empty.reports moves []) ∧
    (∀ (k : Nat) (x : Newcomer), (newcomers moves)[k]? = some x →
      x.Answers k (empty.run moves).2.mesh (empty.reports moves [])) ∧
    ∀ r ∈ empty.reports moves [], ∀ sender c, r.sending? = some (sender, c) →
      ∀ x ∈ newcomers moves, x.peer = sender → c.enveloped.length ≤ x.maxPayload ∧
        ∀ y : Newcomer, y.registry = x.registry → ∀ name args, c = .rpc name args →
          (y.registry.invoke name args).isMismatch = false := by
  have h := faithful_empty.run hpeers hcount
  rw [List.nil_append] at h
  have hfinite : ∀ {r}, r ∈ empty.reports moves [] → ∀ {sender c}, r.sending? = some (sender, c) →
      c.isFinite := by
    intro r hr sender c hc
    obtain ⟨x, -, -, hissues⟩ := (h.regular r hr).issued sender c hc
    exact hissues.finite
  refine ⟨fun p t hr => (h.regular _ hr).fresh p t rfl, fun k x hx => ?_, ?_⟩
  · have hattends := h.attends k x hx
    refine ⟨hattends.broadcasts.filtered ?_, hattends.unicasts.filtered ?_⟩
    · intro c hc
      obtain ⟨sender, hr⟩ := mem_broadcastsFor hc
      exact x.filter_answer Registry.command_of_callEvent? (hfinite hr rfl)
        (hcanonical _ hr sender c rfl)
    · rintro ⟨sender, c⟩ hc
      have hr := mem_unicastsFor hc
      exact x.filter_answer Registry.command_of_unicastEvent? (hfinite hr rfl)
        (hcanonical _ hr sender c rfl)
  · rintro r hr sender c hc x hx rfl
    obtain ⟨x', hx', hpeer, hissues⟩ := (h.regular r hr).issued _ c hc
    cases List.inj_on_of_nodup_map hpeers hx' hx hpeer
    refine ⟨hissues.fits, ?_⟩
    rintro y hy name args rfl
    exact Registry.isMismatch_of_validate (hy ▸ hissues.valid name args rfl)

def putting (label : String) (limit : Nat) : Newcomer where
  peer := ⟨label⟩
  stem := label
  protocol := "interpreter"
  maxPayload := limit
  registry := (Registry.empty.register "put" ⟨1, fun _ => .value .unit⟩).register "ping"
    ⟨0, fun _ => .value .unit⟩
  mappers := .empty
  membership := none
  store := .empty
  depth := 0

/-- A peer broadcasts two calls to another one with a lower limit, above which the first call is. -/
def lowLimit : List (Move Unit) :=
  [.join (putting "a" 1000), .join (putting "b" 80), .task 1 .start,
    .task 0 (.broadcast "put" [.string "this text alone is longer than what is left of the limit"]),
    .task 0 (.broadcast "ping" []), .task 1 .serve, .task 1 .serve]

theorem acceptedBy_le_length (p : PeerId) (past : List Report) :
    acceptedBy p past ≤ past.length := by
  induction past with
  | nil => exact Nat.le_refl _
  | cons r past ih =>
    cases r with
    | broadcast sender c =>
      rw [acceptedBy, List.length_cons]
      split
      · exact Nat.succ_le_succ ih
      · exact Nat.le_succ_of_le ih
    | joined | left | unicast | refused | emitted => exact Nat.le_succ_of_le ih

theorem calls_answered_lowLimit :
    ((newcomers lowLimit).map Newcomer.peer).Nodup ∧
    (∀ p, acceptedBy p (empty.reports lowLimit []) < 2 ^ 64 - 1) ∧
    (∀ r ∈ empty.reports lowLimit [], ∀ sender c,
      r.sending? = some (sender, c) → c.Canonical) ∧
    (newcomers lowLimit)[1]? = some (putting "b" 80) ∧
    (putting "b" 80).Answers 1 (empty.run lowLimit).2.mesh (empty.reports lowLimit []) := by
  have hpeers : ((newcomers lowLimit).map Newcomer.peer).Nodup := by
    decide
  have hcount : ∀ p, acceptedBy p (empty.reports lowLimit []) < 2 ^ 64 - 1 := fun p =>
    Nat.lt_of_le_of_lt (acceptedBy_le_length p _) (by decide +kernel)
  have htexts : (empty.reports lowLimit []).all fun r => r.sending?.all fun i => i.2.isTexts := by
    decide +kernel
  have hcanonical : ∀ r ∈ empty.reports lowLimit [], ∀ sender c,
      r.sending? = some (sender, c) → c.Canonical := by
    intro r hr sender c hc
    have hall := List.all_eq_true.mp htexts r hr
    rw [hc] at hall
    exact Command.canonical_of_isTexts hall
  exact ⟨hpeers, hcount, hcanonical, rfl,
    (calls_answered hpeers hcount hcanonical).2.1 1 (putting "b" 80) rfl⟩

/-- Both calls are acknowledged and served, but only the second one is made known. -/
theorem unmentioned_put :
    ((newcomers lowLimit).map Newcomer.peer).Nodup ∧
    (broadcastsFor ⟨"b"⟩ (empty.reports lowLimit [])).filterMap Command.operation? =
      ["put", "ping"] ∧
    ¬∃ heard waiting, broadcastsFor ⟨"b"⟩ (empty.reports lowLimit []) = heard ++ waiting ∧
      eventsAt ⟨"b"⟩ .broadcastResult (empty.reports lowLimit []) =
        heard.filterMap (putting "b" 80).registry.callEvent? := by
  have hdue : (broadcastsFor ⟨"b"⟩ (empty.reports lowLimit [])).filterMap Command.operation? =
      ["put", "ping"] := by
    decide +kernel
  have hevents : (eventsAt ⟨"b"⟩ .broadcastResult (empty.reports lowLimit [])).filterMap
      (fun e => e.command.operation?) = ["ping"] := by
    decide +kernel
  refine ⟨by decide, hdue, ?_⟩
  rintro ⟨heard, waiting, hsplit, hanswers⟩
  have hnames : ∀ c, ((putting "b" 80).registry.callEvent? c).bind
      (fun e => e.command.operation?) = c.operation? := by
    rintro (_ | _ | _)
    · rfl
    · rfl
    · rfl
  rw [hanswers, List.filterMap_filterMap, funext hnames] at hevents
  rw [hsplit, List.filterMap_append, hevents] at hdue
  exact absurd (List.cons.inj hdue).1 (by decide)

end Cluster

end PeerMesh
