import Mathlib.Data.Prod.Lex
import Mathlib.Order.WellFounded
import PeerMesh.Proofs.Cluster.Flow
import PeerMesh.Proofs.Wire.Kind

namespace PeerMesh

variable {ν : Type}

def Command.isCustom (c : Command) : Bool :=
  c.kind = .custom

def asksForCustom (payload : Bytes) : Bool :=
  (decode payload).toOption.any Command.isCustom

theorem asksForCustom_enveloped {c : Command} (hf : c.isFinite) (hc : c.isCustom = false) :
    asksForCustom c.enveloped = false := by
  rw [asksForCustom]
  cases hd : decode c.enveloped with
  | error e => rfl
  | ok c' =>
    have hkind := kind_of_decode hf hd
    simpa [Except.toOption, Command.isCustom, hkind] using hc

theorem asksForCustom_of_decode {s : Site ν} {payload : Bytes} {c : Command}
    (h : s.decode payload = .ok c) : asksForCustom payload = c.isCustom := by
  rw [asksForCustom, decode_of_readWithin (Site.decode_eq_ok.mp h)]
  rfl

theorem not_custom_of_decode {s : Site ν} {payload : Bytes} (h : asksForCustom payload = false) :
    ∀ c, s.decode payload = .ok c → c.kind ≠ .custom := by
  intro c hd
  rw [asksForCustom_of_decode hd] at h
  exact of_decide_eq_false h

theorem isCustom_of_mem_queuedIn {log : List (Remark ν)} {c : Command} (h : c ∈ queuedIn log) :
    c.isCustom = false := by
  obtain ⟨n, job, key, v, -, rfl⟩ := mem_queuedIn.mp h
  rfl

theorem countP_queuedIn (log : List (Remark ν)) :
    (queuedIn log).countP Command.isCustom = 0 :=
  List.countP_eq_zero.mpr fun _ hc => Bool.eq_false_iff.mp (isCustom_of_mem_queuedIn hc)

theorem sum_map_set {α : Type} (f : α → Nat) {l : List α} {k : Nat} {x : α} (h : l[k]? = some x)
    (y : α) : ((l.set k y).map f).sum + f x = (l.map f).sum + f y := by
  induction l generalizing k with
  | nil => cases h
  | cons a l ih =>
    cases k with
    | zero =>
      cases h
      simp [List.set]
      omega
    | succ k =>
      have hl := ih h
      simp only [List.set, List.map_cons, List.sum_cons]
      omega

def Mesh.customs (w : Mesh) : Nat :=
  (w.endpoints.map fun e => e.broadcasts.countP asksForCustom).sum

def Mesh.queued (w : Mesh) : Nat :=
  (w.endpoints.map fun e => e.broadcasts.length + e.unicasts.length).sum

namespace Mesh

variable {w w' : Mesh} {k : Nat}

theorem Requeued.endpoints_eq_set {f : Nat → List Bytes → List Bytes}
    {g : Nat → List (PeerId × Bytes) → List (PeerId × Bytes)} (h : Requeued w w' f g)
    (hf : ∀ j ≠ k, ∀ q, f j q = q) (hg : ∀ j ≠ k, ∀ q, g j q = q) {e : Endpoint}
    (he : w.endpoints[k]? = some e) :
    w'.endpoints =
      w.endpoints.set k { e with broadcasts := f k e.broadcasts, unicasts := g k e.unicasts } := by
  apply List.ext_getElem?
  intro j
  rw [h.endpoints, List.getElem?_set]
  by_cases hj : k = j
  · subst hj
    rw [if_pos rfl, if_pos (List.getElem?_eq_some_iff.mp he).1, he]
    rfl
  · rw [if_neg hj]
    cases w.endpoints[j]? with
    | none => rfl
    | some e' => simp [hf j (Ne.symm hj), hg j (Ne.symm hj)]

theorem Requeued.total {f : Nat → List Bytes → List Bytes}
    {g : Nat → List (PeerId × Bytes) → List (PeerId × Bytes)} (h : Requeued w w' f g)
    (hf : ∀ j ≠ k, ∀ q, f j q = q) (hg : ∀ j ≠ k, ∀ q, g j q = q) {e : Endpoint}
    (he : w.endpoints[k]? = some e) (φ : List Bytes → List (PeerId × Bytes) → Nat) :
    (w'.endpoints.map fun e => φ e.broadcasts e.unicasts).sum + φ e.broadcasts e.unicasts =
      (w.endpoints.map fun e => φ e.broadcasts e.unicasts).sum +
        φ (f k e.broadcasts) (g k e.unicasts) := by
  rw [h.endpoints_eq_set hf hg he]
  exact sum_map_set (fun e : Endpoint => φ e.broadcasts e.unicasts) he _

theorem totals_serving {payload : Bytes} (hread : payload :: w'.broadcasts k = w.broadcasts k)
    (hmesh : Requeued w w' (fun j q => if j = k then q.tail else q) (fun _ q => q)) :
    w'.customs + (if asksForCustom payload then 1 else 0) = w.customs ∧
      w'.queued + 1 = w.queued := by
  cases he : w.endpoints[k]? with
  | none => simp [Mesh.broadcasts, he] at hread
  | some e =>
    rw [broadcasts_eq he] at hread
    have htotal := hmesh.total (fun j hj q => if_neg hj) (fun _ _ _ => rfl) he
    have hcustoms := htotal fun q _ => q.countP asksForCustom
    have hqueued := htotal fun q r => q.length + r.length
    simp only [if_true, ← hread, List.tail_cons, List.countP_cons, List.length_cons]
      at hcustoms hqueued
    rw [customs, customs, queued, queued]
    constructor <;> omega

theorem totals_servingUnicast {item : PeerId × Bytes} (hread : item :: w'.unicasts k = w.unicasts k)
    (hmesh : Requeued w w' (fun _ q => q) (fun j q => if j = k then q.tail else q)) :
    w'.customs = w.customs ∧ w'.queued + 1 = w.queued := by
  cases he : w.endpoints[k]? with
  | none => simp [Mesh.unicasts, he] at hread
  | some e =>
    rw [unicasts_eq he] at hread
    have htotal := hmesh.total (fun _ _ _ => rfl) (fun j hj q => if_neg hj) he
    have hcustoms := htotal fun q _ => q.countP asksForCustom
    have hqueued := htotal fun q r => q.length + r.length
    simp only [if_true, ← hread, List.tail_cons, List.length_cons] at hcustoms hqueued
    rw [customs, customs, queued, queued]
    constructor <;> omega

theorem Pushed.customs {payload : Bytes} (h : w.Pushed payload w')
    (hasks : asksForCustom payload = false) : w'.customs = w.customs := by
  obtain ⟨n, hn⟩ := h
  have hmap : w'.endpoints.map (fun e => e.broadcasts.countP asksForCustom) =
      w.endpoints.map fun e => e.broadcasts.countP asksForCustom := by
    apply List.ext_getElem?
    intro j
    simp [hn.endpoints, Function.comp_def, List.countP_replicate, hasks]
  rw [Mesh.customs, hmap, Mesh.customs]

end Mesh

namespace Cluster

/-- The custom commands in outboxes. There are none unless some were put there. -/
def customs (c : Cluster ν) : Nat :=
  (c.sites.map fun s => s.interpreter.outbox.countP Command.isCustom).sum

def unsent (c : Cluster ν) : Nat :=
  (c.sites.map fun s => s.interpreter.outbox.length).sum

def channels (c : Cluster ν) : Nat :=
  (c.sites.map fun s => s.interpreter.pump.channels).sum

/-- What is left to do. To forward a custom command takes one from the first number, to serve one
takes one from the second, to forward a response one from the third, to serve anything else one from
the fourth, and to close a channel one from the last; each time those before stay as they are. -/
def weight (c : Cluster ν) : ℕ ×ₗ ℕ ×ₗ ℕ ×ₗ ℕ ×ₗ ℕ :=
  toLex (c.customs, toLex (c.mesh.customs, toLex (c.unsent, toLex (c.mesh.queued, c.channels))))

theorem weight_lt_iff {c d : Cluster ν} :
    d.weight < c.weight ↔ d.customs < c.customs ∨ d.customs = c.customs ∧
      (d.mesh.customs < c.mesh.customs ∨ d.mesh.customs = c.mesh.customs ∧
        (d.unsent < c.unsent ∨ d.unsent = c.unsent ∧
          (d.mesh.queued < c.mesh.queued ∨ d.mesh.queued = c.mesh.queued ∧
            d.channels < c.channels))) := by
  simp only [weight, Prod.Lex.toLex_lt_toLex]

end Cluster

namespace Task.Pumping

variable {k : Nat} {s s' : Site ν} {w w' : Mesh} {deeds : List (Deed ν)}

theorem weight (h : Pumping k s w deeds s' w') {c : Cluster ν} (hs : c.sites[k]? = some s)
    (hw : c.mesh = w) :
    (deeds = [] ∧ s' = s ∧ w' = w) ∨ (Cluster.mk w' (c.sites.set k s')).weight < c.weight := by
  have hcustoms := sum_map_set
    (fun s : Site ν => s.interpreter.outbox.countP Command.isCustom) hs s'
  have hunsent := sum_map_set (fun s : Site ν => s.interpreter.outbox.length) hs s'
  have hchannels := sum_map_set (fun s : Site ν => s.interpreter.pump.channels) hs s'
  rw [Cluster.weight_lt_iff]
  simp only [Cluster.customs, Cluster.unsent, Cluster.channels, hw]
  cases h with
  | idle => exact .inl ⟨rfl, rfl, rfl⟩
  | @closing p hfewer =>
    have hsub := s.interpreter.outbox_setPump p
    have hcount := hsub.countP_le (p := Command.isCustom)
    have hlen := hsub.length_le
    have hp : (s.interpreter.setPump p).pump = p := by cases p <;> rfl
    rw [← hp] at hfewer
    dsimp only at hcustoms hunsent hchannels
    omega
  | @serving payload w' hread hmesh =>
    obtain ⟨hasks, hqueued⟩ := Mesh.totals_serving hread hmesh
    have hout := s.receiveBroadcast_outbox w.neighbours payload
    have hpump := (s.receiveBroadcast_resembles w.neighbours payload).pump
    rw [hout, List.countP_append, countP_queuedIn] at hcustoms
    rw [hout, List.length_append] at hunsent
    rw [hpump] at hchannels
    cases ha : asksForCustom payload with
    | true =>
      rw [ha, if_pos rfl] at hasks
      omega
    | false =>
      rw [ha, if_neg Bool.false_ne_true] at hasks
      have hinert := Site.isInert_receiveBroadcast w.neighbours (not_custom_of_decode (s := s) ha)
      have hnone := queuedIn_of_isInert hinert.2
      rw [hnone, List.length_nil] at hunsent
      omega
  | @servingUnicast sender payload w' hread hmesh =>
    obtain ⟨hasks, hqueued⟩ := Mesh.totals_servingUnicast hread hmesh
    rw [s.receiveUnicast_interpreter sender payload] at hcustoms hunsent hchannels
    omega
  | @forwarding cmd rest sent i w' hout hrest hmesh =>
    rw [hout, hrest, List.countP_cons] at hcustoms
    rw [hout, hrest, List.length_cons] at hunsent
    cases hc : cmd.isCustom with
    | true =>
      rw [hc, if_pos rfl] at hcustoms
      omega
    | false =>
      rw [hc, if_neg Bool.false_ne_true] at hcustoms
      have hasks : w'.customs = w.customs := by
        obtain rfl | ⟨hf, hpushed⟩ := hmesh
        · rfl
        · exact hpushed.customs (asksForCustom_enveloped hf hc)
      omega

end Task.Pumping

/-- Of all payloads only a custom command has a site queue anything, and that is at most one
response for each call of an emitter. -/
structure Site.Restrained (s : Site ν) : Prop where
  outbox : ∀ view payload, (s.receiveBroadcast view payload).2.1.interpreter.outbox =
    s.interpreter.outbox ++ queuedIn (s.receiveBroadcast view payload).2.2
  responses : ∀ view payload, ∀ c ∈ queuedIn (s.receiveBroadcast view payload).2.2,
    c.kind = .customResponse
  calls : ∀ view payload, (queuedIn (s.receiveBroadcast view payload).2.2).length ≤
    (s.receiveBroadcast view payload).2.2.countP Remark.isCall
  quiet : ∀ view payload, (∀ c, s.decode payload = .ok c → c.kind ≠ .custom) →
    queuedIn (s.receiveBroadcast view payload).2.2 = []
  unicast : ∀ sender payload,
    (s.receiveUnicast sender payload).2.1.interpreter.outbox = s.interpreter.outbox

theorem Site.restrained (s : Site ν) : s.Restrained where
  outbox view payload := s.receiveBroadcast_outbox view payload
  responses view payload c hc := by
    obtain ⟨n, job, key, v, -, rfl⟩ := mem_queuedIn.mp hc
    rfl
  calls view payload := length_queuedIn_le _
  quiet view payload h := queuedIn_of_isInert (isInert_receiveBroadcast view h).2
  unicast sender payload := by rw [s.receiveUnicast_interpreter sender payload]

namespace Cluster

/-- A pump takes a step that is not idle. Before, others may have used the stores and the hubs, and
peers may have left. -/
def Pumps (c e : Cluster ν) : Prop :=
  ∃ d k t, c.Alike d ∧ t.isPump ∧ d.perform (.task k t) ≠ ([], d) ∧
    (d.perform (.task k t)).2 = e

variable {c d e : Cluster ν}

theorem Alike.weight (h : c.Alike d) : d.weight = c.weight := by
  have htotal : ∀ φ : Interpreter → Nat, (d.sites.map fun s => φ s.interpreter).sum =
      (c.sites.map fun s => φ s.interpreter).sum := by
    intro φ
    have hmap := congrArg (fun is => (is.map φ).sum) h.interpreters
    simpa only [List.map_map, Function.comp_def] using hmap
  rw [Cluster.weight, Cluster.weight, Mesh.customs, Mesh.queued, h.endpoints]
  rw [customs, unsent, channels, htotal fun i => i.outbox.countP Command.isCustom,
    htotal fun i => i.outbox.length, htotal fun i => i.pump.channels]
  rfl

theorem Pumps.weight (h : c.Pumps e) : e.weight < c.weight := by
  obtain ⟨d, k, t, halike, ht, hne, rfl⟩ := h
  rw [← halike.weight]
  cases hs : d.sites[k]? with
  | none => exact absurd (perform_task_none hs t) hne
  | some s =>
    rw [perform_task hs] at hne ⊢
    obtain ⟨hdeeds, hsite, hmesh⟩ | hlt := (Task.pumping ht).weight hs rfl
    · obtain ⟨hlt, hget⟩ := List.getElem?_eq_some_iff.mp hs
      have hsites : d.sites.set k s = d.sites := hget ▸ List.set_getElem_self hlt
      refine absurd ?_ hne
      rw [hdeeds, hsite, hmesh, hsites]
      rfl
    · exact hlt

theorem pumps_of_ne {k : Nat} {t : Task ν} (ht : t.isPump) (h : (c.perform (.task k t)).1 ≠ []) :
    c.Pumps (c.perform (.task k t)).2 :=
  ⟨c, k, t, ⟨rfl, rfl⟩, ht, fun he => h (congrArg Prod.fst he), rfl⟩

/-- Pumps stop only when there is nothing left that they could serve or forward. -/
theorem drained_of_not_pumps (h : ∀ e, ¬c.Pumps e) {k : Nat} {s : Site ν}
    (hs : c.sites[k]? = some s) :
    (s.interpreter.pump.isRunning → s.interpreter.outbox = []) ∧
    (s.interpreter.pump.servesBroadcast → c.mesh.broadcasts k = []) ∧
    (s.interpreter.pump.servesUnicast → c.mesh.unicasts k = []) := by
  have hidle : ∀ t : Task ν, t.isPump → (t.perform k s c.mesh).1 = [] := by
    intro t ht
    by_contra hne
    refine h _ (pumps_of_ne (k := k) ht ?_)
    simpa [perform_task hs] using hne
  refine ⟨fun hruns => ?_, fun hserves => ?_, fun hserves => ?_⟩
  · have hforward := hidle .forward rfl
    rw [Task.perform, if_pos hruns] at hforward
    cases hout : s.interpreter.outbox with
    | nil => rfl
    | cons cmd rest => simp [hout] at hforward
  · have hserve := hidle .serve rfl
    rw [Task.perform, if_pos hserves] at hserve
    obtain ⟨payload, w', -, hr, -⟩ | ⟨hnil, -⟩ | ⟨hnil, -⟩ := c.mesh.receiveBroadcast_cases k
    · simp [hr] at hserve
    · exact hnil
    · exact hnil
  · have hserve := hidle .serveUnicast rfl
    rw [Task.perform, if_pos hserves] at hserve
    obtain ⟨payload, w', -, hr, -⟩ | ⟨hnil, -⟩ | ⟨hnil, -⟩ := c.mesh.receiveUnicast_cases k
    · simp [hr] at hserve
    · exact hnil
    · exact hnil

/-- Pumps that are left to themselves take finitely many steps, whatever is queued and in the
outboxes, and then nothing is left that they could serve or forward. Meanwhile a queue only gets
what left an outbox, and a site sends at most, each once and in this order, what was in its outbox
and what its mappers emitted for custom commands. -/
theorem falls_silent :
    (∀ f : ℕ → Cluster ν, ∃ n, ¬(f n).Pumps (f (n + 1))) ∧
    (∀ c : Cluster ν, (∀ e, ¬c.Pumps e) → ∀ k s, c.sites[k]? = some s →
      (s.interpreter.pump.isRunning → s.interpreter.outbox = []) ∧
      (s.interpreter.pump.servesBroadcast → c.mesh.broadcasts k = []) ∧
      (s.interpreter.pump.servesUnicast → c.mesh.unicasts k = [])) ∧
    (∀ (c d : Cluster ν) (trace : Trace ν), c.Pumped trace d → ∀ k s', d.sites[k]? = some s' →
      ∃ s, c.sites[k]? = some s ∧ (goneFrom k trace ++ s'.interpreter.outbox).Sublist
        (s.interpreter.outbox ++ queuedIn (remarksAt k trace))) ∧
    (∀ (c : Cluster ν) (k : Nat) (t : Task ν), t.isPump → ∀ j,
      (∃ more, (c.perform (.task k t)).2.mesh.broadcasts j <:+ c.mesh.broadcasts j ++ more ∧
        ∀ p ∈ more, ∃ cmd ∈ goneFrom k (c.perform (.task k t)).1, p = cmd.enveloped) ∧
      (c.perform (.task k t)).2.mesh.unicasts j <:+ c.mesh.unicasts j) ∧
    (∀ s : Site ν, s.Restrained) := by
  refine ⟨fun f => ?_, fun c h k s hs => drained_of_not_pumps h hs,
    fun c d trace h k s' hs' => h.outbox k hs', fun c k t ht j => ?_, Site.restrained⟩
  · obtain ⟨n, hn⟩ := WellFounded.not_rel_apply_succ (r := (· < ·)) fun n => (f n).weight
    exact ⟨n, fun h => hn h.weight⟩
  · cases hs : c.sites[k]? with
    | none =>
      rw [perform_task_none hs]
      exact ⟨⟨[], by simp, by simp⟩, List.suffix_refl _⟩
    | some s =>
      rw [perform_task hs, goneFrom, deedsAt_self]
      exact (Task.pumping ht).queues j

end Cluster

end PeerMesh
