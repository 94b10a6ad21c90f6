import PeerMesh.Proofs.Cluster.Issues
import PeerMesh.Proofs.Cluster.Reducers

namespace PeerMesh

variable {ν : Type}

def Command.asks (job : JobId) : Command → Bool
  | custom j .. => j = job
  | _ => false

theorem Command.asks_eq_true {job : JobId} {c : Command} (h : c.asks job) :
    ∃ key mapper shape, c = custom job key mapper shape := by
  cases c with
  | rpc | customResponse => cases h
  | custom j key mapper shape =>
    have hj : j = job := of_decide_eq_true h
    exact ⟨key, mapper, shape, by rw [hj]⟩

namespace Cluster

def limit (c : Cluster ν) (k : Nat) : Nat :=
  (c.sites[k]?.map fun s => s.interpreter.maxPayload).getD 0

def waiting (c : Cluster ν) (job : JobId) (k : Nat) : List Command :=
  (c.outboxAt k).filter (Command.answers job)

def queued (c : Cluster ν) (job : JobId) (k : Nat) : List (Fields Val × Command) :=
  answersIn job (c.limit k) (c.mesh.broadcasts k)

/-- Neither the command nor a response of the job waits anywhere. -/
def Settled (c : Cluster ν) (job : JobId) : Prop :=
  ∀ (k : Nat) (s : Site ν), c.sites[k]? = some s →
    (∀ x ∈ s.interpreter.outbox, x.job? ≠ some job) ∧
      ∀ payload ∈ c.mesh.broadcasts k, ∀ x, s.decode payload = .ok x → x.job? ≠ some job

theorem settled_of_empty {c : Cluster ν} (job : JobId)
    (ho : ∀ s ∈ c.sites, s.interpreter.outbox = [])
    (hq : ∀ k < c.sites.length, c.mesh.broadcasts k = []) : c.Settled job := by
  intro k s hs
  obtain ⟨hk, -⟩ := List.getElem?_eq_some_iff.mp hs
  rw [ho s (List.mem_of_getElem? hs), hq k hk]
  refine ⟨fun x hx => ?_, fun p hp => ?_⟩
  · cases hx
  · cases hp

theorem limit_eq {c : Cluster ν} {k : Nat} {s : Site ν} (h : c.sites[k]? = some s) :
    c.limit k = s.interpreter.maxPayload := by
  rw [limit, h]
  rfl

end Cluster

/-- A run in which a site asks all others to run a mapper. -/
structure Survey (ν : Type) where
  before : List (Move ν)
  initiator : Nat
  key : String
  mapper : String
  shape : ResponseShape
  reducer : Reducer ν
  after : List (Move ν)

namespace Survey

variable (v : Survey ν)

def ask : Move ν :=
  .task v.initiator (.mapReduce v.key v.mapper v.shape v.reducer)

def moves : List (Move ν) :=
  v.before ++ v.ask :: v.after

def past : Trace ν :=
  (Cluster.empty.run v.before).1

def start : Cluster ν :=
  (Cluster.empty.run v.before).2

def asked : Cluster ν :=
  (v.start.perform v.ask).2

def trace : Trace ν :=
  (v.asked.run v.after).1

def final : Cluster ν :=
  (v.asked.run v.after).2

def whole : Trace ν :=
  v.past ++ (v.start.perform v.ask).1 ++ v.trace

/-- The value maps of the responses to the job that reach the site that asked, with the sender. -/
def due (m : MapReduce) : List (Nat × Fields Val) :=
  (sentTo v.initiator v.trace).filterMap fun x =>
    if x.2.crosses (v.final.limit x.1) (v.final.limit v.initiator) then
      (x.2.answer? m.job).map fun r => (x.1, r.1)
    else none

def command (m : MapReduce) : Command :=
  .custom m.job v.key v.mapper v.shape

/-- Every peer joins once and stays, the map-reduce is acknowledged and its handle is kept, nobody
makes up responses to its job at home, and in the end nothing of it is pending. -/
structure Regular (m : MapReduce) : Prop where
  orderly : (Cluster.empty : Cluster ν).Orderly v.moves
  short : v.moves.length + 1 < 2 ^ 64
  acknowledged : (v.initiator, .reducing m) ∈ (v.start.perform v.ask).1
  spares : ∀ t, .task v.initiator t ∈ v.moves → t.Spares m.job
  keeps : ∀ t, .task v.initiator t ∈ v.after → t.Keeps m.subscription
  canonical : ∀ d ∈ v.past ++ v.trace, ∀ c, d.2.sent? = some c → c.Canonical
  settled : v.final.Settled m.job

/-- The step in which the command is sent, and the site that sends it as it was before. -/
structure Sending (m : MapReduce) (s s' : Site ν) : Prop where
  before : v.start.sites[v.initiator]? = some s
  after : v.asked.sites[v.initiator]? = some s'
  trace : (v.start.perform v.ask).1 =
    [(v.initiator, .called (v.command m)), (v.initiator, .reducing m)]
  job : m.job = s.interpreter.jobIds.next.1
  ids : s'.interpreter.jobIds = s.interpreter.jobIds.next.2
  outbox : s'.interpreter.outbox = s.interpreter.outbox
  watches : s'.hub.Watches m.subscription m.job (Site.reducing m.job v.reducer)

namespace Regular

variable {v} {m : MapReduce} (h : v.Regular m)
include h

theorem length_moves : v.before.length + 1 + v.after.length + 1 < 2 ^ 64 := by
  have hshort := h.short
  rw [moves, List.length_append, List.length_cons] at hshort
  omega

theorem length_start : 0 + v.before.length + 1 < 2 ^ 64 := by
  have hlen := h.length_moves
  omega

theorem length_ask : v.before.length + [v.ask].length + 1 < 2 ^ 64 := by
  have hlen := h.length_moves
  rw [List.length_singleton]
  omega

theorem sound_start : v.start.Sound v.before.length := by
  have hrun := Cluster.sound_empty.run h.orderly.left h.length_start
  rw [Nat.zero_add] at hrun
  exact hrun

theorem orderly_start : v.start.Orderly ([v.ask] ++ v.after) :=
  h.orderly.run Cluster.sound_empty h.length_start

theorem accounts_start : v.start.Accounts v.past := by
  have hrun := Cluster.accounts Cluster.sound_empty h.orderly.left h.length_start
    Cluster.accounts_empty
  exact hrun

theorem issues_start : Cluster.Issues Cluster.empty v.start v.before.length v.past := by
  have hstart : Cluster.Issues (ν := ν) Cluster.empty Cluster.empty 0 [] :=
    .start (fun j k s t hj => by cases hj) (fun k s hs => by cases hs)
  have hrun := Cluster.issues Cluster.sound_empty h.orderly.left h.length_start hstart
  rw [Nat.zero_add] at hrun
  exact hrun

theorem ready_start : v.start.ReadyAt v.initiator m.job := by
  refine Cluster.readyAt Cluster.sound_empty h.orderly.left h.length_start (fun t ht => ?_)
    (fun s hs => by cases hs)
  exact h.spares t (List.mem_append_left _ ht)

theorem placed_start {k : Nat} {s : Site ν} (hs : v.start.sites[k]? = some s) :
    s.Placed k v.start.mesh :=
  h.sound_start.placed (Nat.lt_of_succ_lt h.length_ask) hs

theorem sending : ∃ s s', v.Sending m s s' := by
  have hack := h.acknowledged
  have hask : v.ask = .task v.initiator (.mapReduce v.key v.mapper v.shape v.reducer) := rfl
  cases hs : v.start.sites[v.initiator]? with
  | none =>
    rw [hask, Cluster.perform_task_none hs] at hack
    cases hack
  | some s =>
    have hready := h.ready_start s hs
    have hspares : v.reducer.Spares m.job :=
      h.spares _ (List.mem_append_right _ List.mem_cons_self)
    have hasked : v.asked = (v.start.perform v.ask).2 := rfl
    rw [hask, Cluster.perform_task hs] at hack hasked
    obtain ⟨e, t, w, hsend, hm⟩ | ⟨sent, t, w, hsend, hm⟩ :=
      s.mapReduce_cases v.key v.mapper v.shape v.reducer (Mesh.link v.initiator) v.start.mesh
    · rw [Task.perform, hm] at hack
      cases hack
    · have he := Task.effect (h.placed_start hs)
        (.mapReduce v.key v.mapper v.shape v.reducer)
      have hperform : (Task.mapReduce v.key v.mapper v.shape v.reducer).perform v.initiator s
          v.start.mesh =
            ([.called (.custom s.nextJob.1 v.key v.mapper v.shape),
              .reducing ⟨s.nextJob.1, ⟨s.hub.next⟩⟩], t, w) := by
        rw [Task.perform, hm]
      rw [hperform] at hack hasked he
      have hmr : m = ⟨s.nextJob.1, ⟨s.hub.next⟩⟩ := by
        obtain hack | hack := List.mem_cons.mp hack
        · cases hack
        · cases List.mem_singleton.mp hack
          rfl
      have hwatched := Site.mapReduce_watched (Mesh.link v.initiator) v.key v.mapper v.shape
        v.start.mesh hready hspares (m := ⟨s.nextJob.1, ⟨s.hub.next⟩⟩) (by rw [hm])
      rw [hm] at hwatched
      subst hmr
      refine ⟨s, t, hs, ?_, ?_, rfl, ?_, he.outbox_of_called, hwatched⟩
      · rw [hasked]
        exact (Cluster.getElem?_set_site hs t _).trans (if_pos rfl)
      · rw [hask, Cluster.perform_task hs, hperform]
        rfl
      · obtain ⟨hnil, -⟩ | ⟨-, hids⟩ := he.issued
        · cases hnil
        · exact hids

theorem sound_asked : v.asked.Sound (v.before.length + 1) := by
  exact h.sound_start.run h.orderly_start.left h.length_ask

theorem orderly_asked : v.asked.Orderly v.after :=
  h.orderly_start.run h.sound_start h.length_ask

theorem accounts_asked : v.asked.Accounts (v.past ++ (v.start.perform v.ask).1) := by
  obtain ⟨s, s', hsend⟩ := h.sending
  exact h.accounts_start.task h.sound_start (Nat.lt_of_succ_lt h.length_ask) hsend.before _

theorem accounts_final : v.final.Accounts v.whole :=
  Cluster.accounts h.sound_asked h.orderly_asked h.length_moves h.accounts_asked

theorem issues_asked : Cluster.Issues v.asked v.asked (v.before.length + 1) [] := by
  obtain ⟨s, s', hsend⟩ := h.sending
  have hissues := h.issues_start.task h.sound_start h.length_ask hsend.before
    (.mapReduce v.key v.mapper v.shape v.reducer)
  exact .start hissues.distinct hissues.seq

theorem issues_final :
    Cluster.Issues v.asked v.final (v.before.length + 1 + v.after.length) v.trace :=
  Cluster.issues h.sound_asked h.orderly_asked h.length_moves h.issues_asked

theorem not_issued_past (k : Nat) : m.job ∉ issuedBy k v.past := by
  intro hmem
  obtain ⟨s, s', hsend⟩ := h.sending
  obtain hlt | hge := Nat.lt_or_ge k v.start.sites.length
  · obtain ⟨i, hi, hlt', -⟩ :=
      h.issues_start.issued k _ (List.getElem?_eq_getElem hlt) m.job hmem
    rw [hsend.job] at hi
    obtain ⟨hstem, hseq⟩ := JobIds.nth_injective hi
    have hk := h.issues_start.distinct _ _ _ _ hsend.before (List.getElem?_eq_getElem hlt) hstem
    subst hk
    cases hsend.before.symm.trans (List.getElem?_eq_getElem hlt)
    omega
  · rw [h.issues_start.nowhere k hge] at hmem
    cases hmem

theorem not_issued_trace (k : Nat) : m.job ∉ issuedBy k v.trace := by
  intro hmem
  obtain ⟨s, s', hsend⟩ := h.sending
  have hfinal := h.issues_final
  obtain hlt | hge := Nat.lt_or_ge k v.final.sites.length
  · obtain ⟨i, hi, -, hle⟩ := hfinal.issued k _ (List.getElem?_eq_getElem hlt) m.job hmem
    rw [hsend.job] at hi
    obtain ⟨hstem, hseq⟩ := JobIds.nth_injective hi
    obtain ⟨t, ht, hlasts⟩ := hfinal.lasts _ _ hsend.after
    have hids : s'.interpreter.jobIds.stem = s.interpreter.jobIds.stem := by
      rw [hsend.ids]
      rfl
    have hk := hfinal.distinct _ _ _ _ ht (List.getElem?_eq_getElem hlt)
      (hlasts.stem.trans (hids.trans hstem))
    subst hk
    have hs' := hle s' hsend.after
    have hbound := h.issues_start.seq _ _ hsend.before
    have hlen := h.length_moves
    rw [hsend.ids, JobIds.seq_next (by omega)] at hs'
    omega
  · rw [hfinal.nowhere k hge] at hmem
    cases hmem

theorem sent_of_gone {k : Nat} {c : Command} (hc : c ∈ goneFrom k v.whole) :
    ∃ n job key val queued, .emitted n job key val queued ∈ remarksAt k v.whole ∧
      c = .response job key val := by
  have hmem : c ∈ responses [] (remarksAt k v.whole) := by
    rw [h.accounts_final.responses_eq]
    exact List.mem_append_left _ hc
  exact mem_responses hmem

theorem within {k : Nat} {d : Deed ν} (hd : (k, d) ∈ v.whole) : d.Within (v.final.limit k) := by
  have haccounts := h.accounts_final
  have hmem := mem_deedsAt.mpr hd
  obtain hlt | hge := Nat.lt_or_ge k v.final.sites.length
  · have hs := List.getElem?_eq_getElem hlt
    rw [Cluster.limit_eq hs]
    exact haccounts.within k _ hs d hmem
  · rw [haccounts.nowhere k hge] at hmem
    cases hmem

theorem fits_of_sent {k : Nat} {d : Deed ν} (hd : (k, d) ∈ v.whole) {c : Command}
    (hc : d.sent? = some c) : c.fits (v.final.limit k) := by
  have hwithin := h.within hd
  cases d with
  | called c' =>
    cases hc
    exact hwithin.1
  | forwarded c' sent =>
    rw [Deed.sent?] at hc
    split at hc
    · next hsent =>
      cases hc
      exact hwithin.symm.trans hsent
    · cases hc
  | reducing | served | noted => cases hc

theorem issued_of_sent {k : Nat} {d : Deed ν} (hd : (k, d) ∈ v.whole) {job : JobId}
    {key mapper : String} {shape : ResponseShape}
    (hc : d.sent? = some (.custom job key mapper shape)) : d.issued? = some job := by
  cases d with
  | called c' =>
    cases hc
    rfl
  | forwarded c' sent =>
    rw [Deed.sent?] at hc
    split at hc
    · cases hc
      have hgone : Command.custom job key mapper shape ∈ goneFrom k v.whole :=
        List.mem_filterMap.mpr ⟨_, mem_deedsAt.mpr hd, rfl⟩
      obtain ⟨n, job', key', val, queued, -, he⟩ := h.sent_of_gone hgone
      cases he
    · cases hc
  | reducing | served | noted => cases hc

/-- A receiver reads what crosses to it, as it was sent. -/
theorem read_of_sent {tr : Trace ν} (htr : ∀ d ∈ tr, d ∈ v.past ++ v.trace) {k : Nat}
    {x : Nat × Command} (hx : x ∈ sentTo k tr) (limit : Nat) :
    readWithin limit x.2.enveloped =
      if x.2.crosses (v.final.limit x.1) limit then some x.2 else none := by
  obtain ⟨d, hd, hc⟩ := List.mem_filterMap.mp (mem_sentTo (j := x.1) (c := x.2) hx).2
  have hmem := htr _ (mem_deedsAt.mp hd)
  have hwhole : (x.1, d) ∈ v.whole := by
    rw [whole, List.append_assoc]
    obtain hmem | hmem := List.mem_append.mp hmem
    · exact List.mem_append_left _ hmem
    · exact List.mem_append_right _ (List.mem_append_right _ hmem)
  exact readWithin_of_fits (h.fits_of_sent hwhole hc) (h.canonical _ hmem _ hc)

theorem sent_before {k : Nat} {payload : Bytes}
    (hp : payload ∈ servedAt k v.past ++ v.start.mesh.broadcasts k) :
    ∃ x ∈ sentTo k v.past, payload = x.2.enveloped := by
  obtain ⟨missed, heard, hsent, hqueue, -, -⟩ :=
    Cluster.hears Cluster.sound_empty h.orderly.left h.length_start k
  have hempty : (Cluster.empty : Cluster ν).mesh.broadcasts k = [] := rfl
  have hlist : heard.map (fun x => x.2.enveloped) =
      servedAt k v.past ++ v.start.mesh.broadcasts k := by
    rw [hempty, List.nil_append] at hqueue
    exact hqueue
  rw [← hlist] at hp
  obtain ⟨x, hx, rfl⟩ := List.mem_map.mp hp
  refine ⟨x, ?_, rfl⟩
  have hsent' : sentTo k v.past = missed ++ heard := hsent
  rw [hsent']
  exact List.mem_append_right _ hx

/-- The command is queued at every other site that has joined. -/
theorem broadcasts_asked (k : Nat) :
    v.asked.mesh.broadcasts k = v.start.mesh.broadcasts k ++
      if k ≠ v.initiator ∧ k < v.start.sites.length then [(v.command m).enveloped] else [] := by
  obtain ⟨s, s', hsend⟩ := h.sending
  obtain ⟨missed, heard, hsent, hqueue, hmissed, hheard⟩ :=
    Cluster.hears h.sound_start h.orderly_start.left h.length_ask k
  have htrace : (v.start.run [v.ask]).1 =
      [Deed.called (v.command m), .reducing m].map fun d => (v.initiator, d) :=
    (List.append_nil _).trans hsend.trace
  have hasked : (v.start.run [v.ask]).2 = v.asked := rfl
  have hlen : v.asked.sites.length = v.start.sites.length :=
    Cluster.length_perform_task _ _ _
  rw [htrace, hasked] at hqueue
  rw [htrace] at hsent
  rw [hasked, hlen] at hheard
  by_cases hk : v.initiator = k
  · subst hk
    rw [servedAt_self] at hqueue
    rw [sentTo_self] at hsent
    rw [(List.append_eq_nil_iff.mp hsent.symm).2] at hqueue
    rw [if_neg fun hne => hne.1 rfl]
    exact hqueue.symm
  · rw [servedAt_other hk] at hqueue
    rw [sentTo_other hk] at hsent
    obtain hlt | hge := Nat.lt_or_ge k v.start.sites.length
    · rw [hmissed hlt, List.nil_append] at hsent
      rw [← hsent] at hqueue
      rw [if_pos ⟨Ne.symm hk, hlt⟩]
      exact hqueue.symm
    · rw [hheard hge] at hqueue
      rw [if_neg fun hlt => absurd hlt.2 (Nat.not_lt.mpr hge)]
      exact hqueue.symm

theorem hears_final (k : Nat) :
    ∃ heard, (∀ x ∈ heard, x ∈ sentTo k v.trace) ∧
      (k < v.start.sites.length → heard = sentTo k v.trace) ∧
      v.asked.mesh.broadcasts k ++ heard.map (fun x => x.2.enveloped) =
        servedAt k v.trace ++ v.final.mesh.broadcasts k := by
  obtain ⟨missed, heard, hsent, hqueue, hmissed, -⟩ :=
    Cluster.hears h.sound_asked h.orderly_asked h.length_moves k
  have hsent' : sentTo k v.trace = missed ++ heard := hsent
  have hlen : v.asked.sites.length = v.start.sites.length :=
    Cluster.length_perform_task _ _ _
  refine ⟨heard, fun x hx => ?_, fun hlt => ?_, hqueue⟩
  · rw [hsent']
    exact List.mem_append_right _ hx
  · rw [hsent', hmissed (hlen ▸ hlt), List.nil_append]

end Regular

end Survey

end PeerMesh
