import PeerMesh.Proofs.Cluster.Due

namespace PeerMesh

namespace Survey

variable {ν : Type} {v : Survey ν} {m : MapReduce}

/-- Nothing was emitted for the job before it was there. -/
def Unguessed (v : Survey ν) (m : MapReduce) : Prop :=
  ∀ k, emissions m.job (remarksAt k v.past) = []

/-- The emitters that a site called for the job are those that mappers were given for it, and they
were called for nothing else. -/
def Owns (v : Survey ν) (m : MapReduce) (k : Nat) : Prop :=
  (∀ n ∈ emissions m.job (remarksAt k v.trace),
    ∃ shape, (n, shape) ∈ mappings m.job (remarksAt k v.trace)) ∧
  ∀ n shape, (n, shape) ∈ mappings m.job (remarksAt k v.trace) →
    ∀ j key x queued, .emitted n j key x queued ∈ remarksAt k v.trace → j = m.job

/-- The reducer is called once for each response that is due, and no other one is. A peer is asked
once, and it owes what it emits for the job. -/
structure Fulfilled (v : Survey ν) (m : MapReduce) : Prop where
  -- the calls of the reducer
  listening : ∃ s, v.final.sites[v.initiator]? = some s ∧
    s.hub.listeners.filter (fun l => l.id = m.subscription.id) =
      [⟨m.subscription.id, .broadcastCustomResult, Site.reducing m.job v.reducer⟩]
  calls : ∀ (e : Event) value c, e.reduction? m.job = some (value, c) →
    Site.reducing m.job v.reducer e = v.reducer value c
  reduced : reductions m.subscription m.job (moments (remarksAt v.initiator v.trace)) =
    v.asked.queued m.job v.initiator ++
      (v.due m).map fun x => (x.2, .customResponse m.job x.2)
  others : ∀ k m', (k, .reducing m') ∈ v.past ++ v.trace → m'.job ≠ m.job ∧
    ∀ (reducer : Reducer ν) (e : Event) r, e.reduction? m.job = some r →
      Site.reducing m'.job reducer e = .done
  -- what each site owes, whatever it guessed of the identifier
  home : v.owed m v.initiator = []
  owed : ∀ k, k ≠ v.initiator → v.owed m k =
    (v.asked.waiting m.job k ++
      (responses (remarksAt k v.past) (remarksAt k v.trace)).filter
        (Command.answers m.job)).filter (v.reaches k)
  unguessed : v.Unguessed m →
    v.asked.queued m.job v.initiator = [] ∧ ∀ k, v.asked.waiting m.job k = []
  -- who is asked, and whose mapper is called
  served : ∀ k, (servedAt k v.trace).filter (asksWithin m.job (v.final.limit k)) =
    if v.Asks m k then [(v.command m).enveloped] else []
  early : ∀ k, mappings m.job (remarksAt k v.past) = []
  unasked : ∀ k, ¬v.Asks m k → mappings m.job (remarksAt k v.trace) = []
  mapped : ∀ k, v.Asks m k → ∃ view s,
    .served view s (v.command m).enveloped ∈ deedsAt k v.trace ∧
    (s.finds view v.key v.mapper →
      mappings m.job (remarksAt k v.trace) = [(s.interpreter.emitters.length, v.shape)]) ∧
    (¬s.finds view v.key v.mapper → mappings m.job (remarksAt k v.trace) = [])
  -- the same by the shape of the command, for a peer that answers by its own emitter only
  stream : v.Unguessed m → ∀ k n, k ≠ v.initiator → v.Owns m k →
    mappings m.job (remarksAt k v.trace) = [(n, .stream)] →
      v.owed m k = (emitted m.job (remarksAt k v.trace)).filter (v.reaches k)
  once : v.Unguessed m → ∀ k n, k ≠ v.initiator → v.Owns m k →
    mappings m.job (remarksAt k v.trace) = [(n, .once)] →
      v.owed m k = ((emitted m.job (remarksAt k v.trace)).take 1).filter (v.reaches k)
  nothing : v.Unguessed m → ∀ k, k ≠ v.initiator → v.Owns m k →
    mappings m.job (remarksAt k v.trace) = [] → v.owed m k = []

theorem Owns.eq {k n : Nat} {shape : ResponseShape} (h : v.Owns m k)
    (hn : mappings m.job (remarksAt k v.trace) = [(n, shape)]) :
    ∀ n' ∈ emissions m.job (remarksAt k v.trace), n' = n := by
  intro n' hn'
  obtain ⟨shape', hmem⟩ := h.1 n' hn'
  rw [hn] at hmem
  cases List.mem_singleton.mp hmem
  rfl

/-- Whoever asks gets what is due. The floats of a response are assumed to be read exactly as they
were written. -/
theorem Regular.fulfilled (h : v.Regular m) : v.Fulfilled m where
  listening := by
    obtain ⟨s, hs, -, hwatches, -⟩ := h.watches_final
    exact ⟨s, hs, hwatches.listening⟩
  calls e value c he := by rw [Site.reducing_eq, he]
  reduced := h.reductions_eq
  others k m' hm := by
    have hne := h.job_ne hm
    exact ⟨hne, fun reducer e r he => Site.reducing_of_ne hne reducer he⟩
  home := v.owed_initiator m
  owed k hk := h.owed_eq hk
  unguessed hun := ⟨h.queued_eq_nil hun, fun k => h.waiting_eq_nil (hun k)⟩
  served := h.served_asks
  early := h.mappings_past
  unasked k hk := h.mappings_of_not_asks hk
  mapped k hk := by
    obtain ⟨view, s, hserved, hmappings⟩ := h.mappings_of_asks hk
    refine ⟨view, s, hserved, fun hfinds => ?_, fun hfinds => ?_⟩
    · rw [hmappings, Site.receiveCustom_mappings view hfinds, if_pos rfl]
    · rw [hmappings, Site.receiveCustom_of_not_finds view hfinds]
      rfl
  stream hun k n hk hown hn := by
    refine h.owed_of_stream hk (hun k) ?_ (hown.eq hn)
    rw [hn]
    exact List.mem_cons_self
  once hun k n hk hown hn := by
    have hmem : (n, .once) ∈ mappings m.job (remarksAt k v.trace) := by
      rw [hn]
      exact List.mem_cons_self
    exact h.owed_of_once hk (hun k) hmem (hown.eq hn) (hown.2 n .once hmem)
  nothing hun k hk hown hn := h.owed_eq_nil hk (hun k) hown.1 hn

def peer (label : String) (limit : Nat) (mappers : Mappers) (store : Store) : Newcomer where
  peer := ⟨label⟩
  stem := label
  protocol := "interpreter"
  maxPayload := limit
  registry := .empty
  mappers := mappers
  membership := none
  store := store
  depth := 0

/-- A peer asks another one, whose mapper emits once. Both have the same limit. -/
def pair (limit : Nat) : Survey Unit where
  before := [
    .join (peer "a" limit .empty .empty),
    .join (peer "b" limit
      (Dict.empty.insert "m" fun job _ _ => .emit job "v" (.s64 7) fun _ => .done)
      (Store.empty.insert "k" (.value .unit))),
    .task 0 .start, .task 1 .start]
  initiator := 0
  key := "k"
  mapper := "m"
  shape := .stream
  reducer _ _ := .done
  after := [.task 1 .serve, .task 1 .forward, .task 0 .serve]

def pairReduce : MapReduce :=
  ⟨⟨"a-1"⟩, ⟨0⟩⟩

def reducing? : Deed ν → Option (JobId × Nat)
  | .reducing m => some (m.job, m.subscription.id)
  | _ => none

def isNumber : Command → Bool
  | .customResponse _ [("jobId", .string _), ("v", .s64 _)] => true
  | _ => false

theorem canonical_of_isNumber {c : Command} (h : isNumber c) : c.Canonical := by
  rw [isNumber.eq_def] at h
  split at h
  · refine ⟨List.pairwise_pair.mpr (show "jobId" < "v" by decide), fun f hf => ?_⟩
    obtain rfl | hf := List.mem_cons.mp hf
    · trivial
    · cases List.mem_singleton.mp hf
      trivial
  · cases h

def pairChecks (limit : Nat) : Bool :=
  let v := pair limit
  (v.start.perform v.ask).1.any (fun d => d.1 = 0 && reducing? d.2 = some (⟨"a-1"⟩, 0)) &&
    (v.past ++ v.trace).all (fun d => d.2.sent?.all isNumber) &&
    v.final.sites.all (fun s => s.interpreter.outbox.isEmpty) &&
    (List.range v.final.sites.length).all fun k => (v.final.mesh.broadcasts k).isEmpty

theorem regular_pair {limit : Nat} (h : pairChecks limit) : (pair limit).Regular pairReduce := by
  rw [pairChecks, Bool.and_eq_true, Bool.and_eq_true, Bool.and_eq_true] at h
  obtain ⟨⟨⟨hack, hcanonical⟩, hout⟩, hqueues⟩ := h
  refine ⟨⟨?_, ?_, ?_⟩, ?_, ?_, ?_, ?_, ?_, ?_⟩
  · change [PeerId.mk "a", ⟨"b"⟩].Nodup
    decide
  · change ["a", "b"].Nodup
    decide
  · intro p hp
    simp [moves, ask, pair] at hp
  · change 8 + 1 < 2 ^ 64
    decide
  · obtain ⟨⟨k, d⟩, hd, hk⟩ := List.any_eq_true.mp hack
    rw [Bool.and_eq_true, decide_eq_true_eq, decide_eq_true_eq] at hk
    obtain ⟨rfl, hd'⟩ := hk
    cases d with
    | reducing m =>
      obtain ⟨⟨text⟩, ⟨id⟩⟩ := m
      cases hd'
      exact hd
    | called | forwarded | served | noted => cases hd'
  · intro t ht
    have ht' : t = .start ∨ t = .mapReduce "k" "m" .stream (fun _ _ => .done) ∨ t = .serve := by
      simpa [moves, ask, pair] using ht
    obtain rfl | rfl | rfl := ht'
    · trivial
    · exact fun _ _ => trivial
    · trivial
  · intro t ht
    have ht' : t = .serve := by simpa [pair] using ht
    subst ht'
    trivial
  · intro d hd c hc
    have hall := List.all_eq_true.mp hcanonical d hd
    rw [hc] at hall
    exact canonical_of_isNumber hall
  · refine Cluster.settled_of_empty _ (fun s hs => ?_) fun k hk => ?_
    · exact List.isEmpty_iff.mp (List.all_eq_true.mp hout s hs)
    · exact List.isEmpty_iff.mp (List.all_eq_true.mp hqueues k (List.mem_range.mpr hk))

theorem fulfilled_pair :
    (pair 1000).Regular pairReduce ∧ (pair 1000).Fulfilled pairReduce ∧
      ((pair 1000).due pairReduce).length = 1 :=
  ⟨regular_pair (by decide +kernel), Regular.fulfilled (regular_pair (by decide +kernel)),
    by decide +kernel⟩

/-- The response to the only emission is larger than the limit of both, so it is lost, and the
reducer is never called. -/
theorem reduced_nothing_pair :
    (pair 100).Regular pairReduce ∧
      mappings pairReduce.job (remarksAt 1 (pair 100).trace) = [(0, .stream)] ∧
      emissions pairReduce.job (remarksAt 1 (pair 100).trace) = [0] ∧
      reductions pairReduce.subscription pairReduce.job (moments (remarksAt 0 (pair 100).trace)) =
        [] :=
  ⟨regular_pair (by decide +kernel), by decide +kernel, by decide +kernel,
    List.eq_nil_of_length_eq_zero (by decide +kernel)⟩

end Survey

end PeerMesh
