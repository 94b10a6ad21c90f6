import PeerMesh.Proofs.Cluster.Traffic
import PeerMesh.Proofs.Interpreter.Outbox

namespace PeerMesh

variable {ν : Type}

namespace Mesh

theorem Requeued.broadcasts_isSuffix {w w' : Mesh} {f : Nat → List Bytes → List Bytes}
    {g : Nat → List (PeerId × Bytes) → List (PeerId × Bytes)} (h : Requeued w w' f g) {j : Nat}
    {more : List Bytes} (hf : ∀ q, f j q <:+ q ++ more) :
    w'.broadcasts j <:+ w.broadcasts j ++ more := by
  rw [Mesh.broadcasts, Mesh.broadcasts, h.endpoints]
  cases w.endpoints[j]? with
  | none => exact List.nil_suffix
  | some e => exact hf e.broadcasts

theorem Requeued.unicasts_isSuffix {w w' : Mesh} {f : Nat → List Bytes → List Bytes}
    {g : Nat → List (PeerId × Bytes) → List (PeerId × Bytes)} (h : Requeued w w' f g) {j : Nat}
    (hg : ∀ q, g j q <:+ q) : w'.unicasts j <:+ w.unicasts j := by
  rw [Mesh.unicasts, Mesh.unicasts, h.endpoints]
  cases w.endpoints[j]? with
  | none => exact List.nil_suffix
  | some e => exact hg e.unicasts

theorem ite_tail_isSuffix {α : Type} (p : Prop) [Decidable p] (q : List α) :
    (if p then q.tail else q) <:+ q := by
  split
  · exact List.tail_suffix q
  · exact List.suffix_refl q

def Pushed (w : Mesh) (payload : Bytes) (w' : Mesh) : Prop :=
  ∃ n : Nat → Nat,
    Requeued w w' (fun j q => q ++ List.replicate (n j) payload) (fun _ q => q)

namespace Pushed

variable {w w' w'' : Mesh} {payload : Bytes}

theorem refl (w : Mesh) (payload : Bytes) : w.Pushed payload w :=
  ⟨fun _ => 0, rfl, fun j => by simp⟩

theorem trans (h : w.Pushed payload w') (h' : w'.Pushed payload w'') : w.Pushed payload w'' := by
  obtain ⟨n, hn⟩ := h
  obtain ⟨m, hm⟩ := h'
  refine ⟨fun j => n j + m j, hm.routes.trans hn.routes, fun j => ?_⟩
  rw [hm.endpoints, hn.endpoints, Option.map_map]
  simp [Function.comp_def, List.append_assoc]

theorem modify (w : Mesh) (payload : Bytes) (ep : Nat) :
    w.Pushed payload (w.modify ep (Endpoint.pushBroadcast payload)) := by
  refine ⟨fun j => if ep = j ∧ (w.endpoints[j]?.all (·.broadcastOpen)) then 1 else 0, rfl,
    fun j => ?_⟩
  rw [Mesh.modify]
  dsimp only
  rw [List.getElem?_modify]
  cases hj : w.endpoints[j]? with
  | none => rfl
  | some e =>
    obtain ⟨peer, broadcasts, unicasts, broadcastOpen, unicastOpen⟩ := e
    by_cases hep : ep = j
    · cases broadcastOpen <;> simp [hep, Endpoint.pushBroadcast]
    · simp [hep]

theorem foldl (w : Mesh) (payload : Bytes) (eps : List Nat) :
    w.Pushed payload (eps.foldl (fun m r => m.modify r (Endpoint.pushBroadcast payload)) w) := by
  induction eps generalizing w with
  | nil => exact .refl w payload
  | cons ep eps ih => exact (modify w payload ep).trans (ih _)

theorem broadcast (w : Mesh) (ep : Nat) (payload : Bytes) (t : Token) :
    w.Pushed payload (w.broadcast ep payload t).2 := by
  rw [Mesh.broadcast]
  split
  · exact .refl w payload
  · split
    · exact .refl w payload
    · obtain ⟨n, hn⟩ := foldl { w with delivered := _ } payload _
      exact ⟨n, hn.routes, hn.endpoints⟩

end Pushed

end Mesh

def Pump.channels : Pump → Nat
  | running broadcast unicast => broadcast.toNat + unicast.toNat
  | _ => 0

theorem Pump.channels_closeBroadcast {p : Pump} (h : p.servesBroadcast) :
    p.closeBroadcast.channels < p.channels := by
  cases p with
  | idle | ended => cases h
  | running broadcast unicast =>
    cases h
    cases unicast <;> decide

theorem Pump.channels_closeUnicast {p : Pump} (h : p.servesUnicast) :
    p.closeUnicast.channels < p.channels := by
  cases p with
  | idle | ended => cases h
  | running broadcast unicast =>
    cases h
    cases broadcast <;> decide

theorem Interpreter.outbox_setPump (i : Interpreter) (p : Pump) :
    (i.setPump p).outbox.Sublist i.outbox := by
  cases p with
  | ended => exact List.nil_sublist _
  | idle | running => exact .refl _

namespace Task

/-- The steps that a pump takes by itself. -/
def isPump : Task ν → Bool
  | serve => true
  | serveUnicast => true
  | forward => true
  | _ => false

/-- All that such a step can do: nothing, closing a channel, serving the first payload of a queue,
or forwarding the first command of the outbox. -/
inductive Pumping (k : Nat) (s : Site ν) (w : Mesh) : List (Deed ν) → Site ν → Mesh → Prop
  | idle : Pumping k s w [] s w
  | closing {p : Pump} (hfewer : p.channels < s.interpreter.pump.channels) :
    Pumping k s w [] { s with interpreter := s.interpreter.setPump p } w
  | serving {payload : Bytes} {w' : Mesh} (hread : payload :: w'.broadcasts k = w.broadcasts k)
    (hmesh : Mesh.Requeued w w' (fun j q => if j = k then q.tail else q) (fun _ q => q)) :
    Pumping k s w [.served w.neighbours s payload] (s.receiveBroadcast w.neighbours payload).2.1 w'
  | servingUnicast {sender : PeerId} {payload : Bytes} {w' : Mesh}
    (hread : (sender, payload) :: w'.unicasts k = w.unicasts k)
    (hmesh : Mesh.Requeued w w' (fun _ q => q) (fun j q => if j = k then q.tail else q)) :
    Pumping k s w [.noted (s.receiveUnicast sender payload).2.2]
      (s.receiveUnicast sender payload).2.1 w'
  | forwarding {c : Command} {rest : List Command} (sent : Bool) {i : Interpreter} {w' : Mesh}
    (hout : s.interpreter.outbox = c :: rest) (hrest : i.outbox = rest)
    (hmesh : w' = w ∨ c.isFinite ∧ w.Pushed c.enveloped w') :
    Pumping k s w [.forwarded c sent] { s with interpreter := i } w'

variable {k : Nat} {s : Site ν} {w : Mesh}

theorem pumping_serve : Pumping k s w ((serve (ν := ν)).perform k s w).1
    ((serve (ν := ν)).perform k s w).2.1 ((serve (ν := ν)).perform k s w).2.2 := by
  rw [perform]
  by_cases hserves : s.interpreter.pump.servesBroadcast
  · rw [if_pos hserves]
    obtain ⟨payload, w', hread, hr, -, hre⟩ | ⟨-, -, hr⟩ | ⟨-, -, hr⟩ := w.receiveBroadcast_cases k
    · rw [hr]
      exact .serving hread hre
    · rw [hr]
      exact .idle
    · rw [hr]
      exact .closing (Pump.channels_closeBroadcast hserves)
  · rw [if_neg hserves]
    exact .idle

theorem pumping_serveUnicast : Pumping k s w ((serveUnicast (ν := ν)).perform k s w).1
    ((serveUnicast (ν := ν)).perform k s w).2.1 ((serveUnicast (ν := ν)).perform k s w).2.2 := by
  rw [perform]
  by_cases hserves : s.interpreter.pump.servesUnicast
  · rw [if_pos hserves]
    obtain ⟨⟨sender, payload⟩, w', hread, hr, -, hre⟩ | ⟨-, -, hr⟩ | ⟨-, -, hr⟩ :=
      w.receiveUnicast_cases k
    · rw [hr]
      exact .servingUnicast hread hre
    · rw [hr]
      exact .idle
    · rw [hr]
      exact .closing (Pump.channels_closeUnicast hserves)
  · rw [if_neg hserves]
    exact .idle

theorem pumping_forward : Pumping k s w ((forward (ν := ν)).perform k s w).1
    ((forward (ν := ν)).perform k s w).2.1 ((forward (ν := ν)).perform k s w).2.2 := by
  rw [perform]
  split
  · split
    · exact .idle
    · next c rest hout =>
      -- Also a broadcast that the mesh refuses goes through it.
      have hpushed : ∀ {bs t r w'}, { s.interpreter with outbox := rest }.payload c = .ok bs →
          w.broadcast k bs t = (r, w') → c.isFinite ∧ w.Pushed c.enveloped w' := by
        intro bs t r w' hp hb
        obtain ⟨hfits, rfl⟩ := Interpreter.payload_eq_ok.mp hp
        have hpush := Mesh.Pushed.broadcast w k c.enveloped t
        rw [hb] at hpush
        exact ⟨Command.isFinite_of_fits hfits, hpush⟩
      obtain ⟨e, hp, hs⟩ | ⟨bs, e, v, hp, hb, hs⟩ | ⟨bs, v, hp, hb, hs⟩ :=
        { s.interpreter with outbox := rest }.sendBroadcast_cases (Mesh.link k) c w
      · rw [hs]
        exact .forwarding _ hout rfl (.inl rfl)
      · rw [hs]
        exact .forwarding _ hout rfl (.inr (hpushed hp hb))
      · rw [hs]
        exact .forwarding _ hout rfl (.inr (hpushed hp hb))
  · exact .idle

theorem pumping {t : Task ν} (ht : t.isPump) :
    Pumping k s w (t.perform k s w).1 (t.perform k s w).2.1 (t.perform k s w).2.2 := by
  cases t with
  | serve => exact pumping_serve
  | serveUnicast => exact pumping_serveUnicast
  | forward => exact pumping_forward
  | broadcast | unicast | custom | mapReduce | start | emit | use | put => cases ht

variable {deeds : List (Deed ν)} {s' : Site ν} {w' : Mesh}

theorem Pumping.outbox (h : Pumping k s w deeds s' w') :
    (deeds.filterMap Deed.gone? ++ s'.interpreter.outbox).Sublist
      (s.interpreter.outbox ++ queuedIn (deeds.flatMap Deed.remarks)) := by
  cases h with
  | idle => simp [queuedIn]
  | @closing p hfewer => simpa [queuedIn] using s.interpreter.outbox_setPump p
  | @serving payload w' hread hmesh =>
    simp [Deed.gone?, Deed.remarks, s.receiveBroadcast_outbox w.neighbours payload]
  | @servingUnicast sender payload w' hread hmesh =>
    have hqueued := queuedIn_of_isInert (s.isInert_receiveUnicast sender payload)
    simp [Deed.gone?, Deed.remarks, hqueued, s.receiveUnicast_interpreter sender payload]
  | forwarding sent hout hrest hmesh =>
    simp [Deed.gone?, Deed.remarks, hout, hrest, queuedIn]

theorem Pumping.queues (h : Pumping k s w deeds s' w') (j : Nat) :
    (∃ more, w'.broadcasts j <:+ w.broadcasts j ++ more ∧
      ∀ p ∈ more, ∃ c ∈ deeds.filterMap Deed.gone?, p = c.enveloped) ∧
    w'.unicasts j <:+ w.unicasts j := by
  cases h with
  | idle | closing => exact ⟨⟨[], by simp, by simp⟩, List.suffix_refl _⟩
  | serving hread hmesh =>
    refine ⟨⟨[], hmesh.broadcasts_isSuffix fun q => ?_, by simp⟩,
      hmesh.unicasts_isSuffix List.suffix_refl⟩
    simpa using Mesh.ite_tail_isSuffix (j = k) q
  | servingUnicast hread hmesh =>
    refine ⟨⟨[], hmesh.broadcasts_isSuffix fun q => by simp, by simp⟩,
      hmesh.unicasts_isSuffix fun q => ?_⟩
    exact Mesh.ite_tail_isSuffix (j = k) q
  | @forwarding c rest sent i w' hout hrest hmesh =>
    obtain rfl | ⟨-, n, hre⟩ := hmesh
    · exact ⟨⟨[], by simp, by simp⟩, List.suffix_refl _⟩
    · refine ⟨⟨List.replicate (n j) c.enveloped,
        hre.broadcasts_isSuffix fun q => List.suffix_refl _, fun p hp => ?_⟩,
        hre.unicasts_isSuffix List.suffix_refl⟩
      exact ⟨c, by simp [Deed.gone?], List.eq_of_mem_replicate hp⟩

end Task

namespace Cluster

/-- The endpoints and the interpreters are the same. Stores and hubs may differ, and so may the
routes of the mesh. -/
structure Alike (c d : Cluster ν) : Prop where
  endpoints : d.mesh.endpoints = c.mesh.endpoints
  interpreters : d.sites.map (·.interpreter) = c.sites.map (·.interpreter)

/-- The pumps took some steps. In between, others may have used the stores and the hubs, and peers
may have left. -/
inductive Pumped : Cluster ν → Trace ν → Cluster ν → Prop
  | here {c d : Cluster ν} (h : c.Alike d) : Pumped c [] d
  | step {c d e : Cluster ν} {k : Nat} {t : Task ν} {trace : Trace ν} (h : c.Alike d)
    (ht : t.isPump) (hrest : Pumped (d.perform (.task k t)).2 trace e) :
    Pumped c ((d.perform (.task k t)).1 ++ trace) e

theorem Alike.site {c d : Cluster ν} (h : c.Alike d) {k : Nat} {s' : Site ν}
    (hs : d.sites[k]? = some s') :
    ∃ s, c.sites[k]? = some s ∧ s'.interpreter = s.interpreter := by
  have hk := congrArg (·[k]?) h.interpreters
  simp only [List.getElem?_map, hs, Option.map_some] at hk
  obtain ⟨s, hs, heq⟩ := Option.map_eq_some_iff.mp hk.symm
  exact ⟨s, hs, heq.symm⟩

/-- A site broadcasts at most what was in its outbox and what its mappers emitted, each once and in
this order. -/
theorem Pumped.outbox {c d : Cluster ν} {trace : Trace ν} (h : c.Pumped trace d) (k : Nat)
    {s' : Site ν} (hs' : d.sites[k]? = some s') :
    ∃ s, c.sites[k]? = some s ∧
      (goneFrom k trace ++ s'.interpreter.outbox).Sublist
        (s.interpreter.outbox ++ queuedIn (remarksAt k trace)) := by
  induction h with
  | here h =>
    obtain ⟨s, hs, heq⟩ := h.site hs'
    refine ⟨s, hs, ?_⟩
    rw [heq]
    simp [goneFrom, deedsAt, remarksAt, queuedIn]
  | @step c d e j t trace h ht hrest ih =>
    obtain ⟨s₁, hs₁, hrest⟩ := ih hs'
    cases hd : d.sites[j]? with
    | none =>
      rw [perform_task_none hd] at hs₁ ⊢
      obtain ⟨s, hs, heq⟩ := h.site hs₁
      exact ⟨s, hs, heq ▸ hrest⟩
    | some s₀ =>
      rw [perform_task hd] at hs₁ ⊢
      rw [getElem?_set_site hd] at hs₁
      rw [goneFrom_append, remarksAt_append, queuedIn_append]
      by_cases hk : k = j
      · subst hk
        rw [if_pos rfl] at hs₁
        cases hs₁
        obtain ⟨s, hs, heq⟩ := h.site hd
        have hstep := (Task.pumping (w := d.mesh) (s := s₀) (k := k) ht).outbox
        have hboth := hrest.append_left ((t.perform k s₀ d.mesh).1.filterMap Deed.gone?)
        rw [← List.append_assoc, ← List.append_assoc] at hboth
        refine ⟨s, hs, ?_⟩
        rw [goneFrom, deedsAt_self, remarksAt_self, ← heq, ← List.append_assoc]
        exact hboth.trans (hstep.append_right _)
      · rw [if_neg hk] at hs₁
        obtain ⟨s, hs, heq⟩ := h.site hs₁
        refine ⟨s, hs, ?_⟩
        rw [goneFrom, deedsAt_other (Ne.symm hk), remarksAt_other (Ne.symm hk), ← heq]
        exact hrest

end Cluster

end PeerMesh
