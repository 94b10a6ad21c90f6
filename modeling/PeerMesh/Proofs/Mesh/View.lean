import PeerMesh.Proofs.Bytes
import PeerMesh.Proofs.Mesh.History
import PeerMesh.Proofs.Store.Requests

namespace PeerMesh.Mesh

variable {m m' : Mesh}

theorem listens_join (p : PeerId) (ep : Nat) :
    (m.join p).2.listens ep = if ep = m.endpoints.length then true else m.listens ep := by
  rw [listens, endpoints_join]
  split <;> rfl

theorem peer?_modify {f : Endpoint → Endpoint} (hf : ∀ e, (f e).peer = e.peer) (j ep : Nat) :
    (m.modify j f).peer? ep = m.peer? ep := by
  rw [modify, peer?, peer?, List.getElem?_modify, Option.map_eq_map, Option.map_map]
  congr 1
  funext e
  by_cases hj : j = ep <;> simp [hj, hf]

theorem listens_modify {f : Endpoint → Endpoint}
    (hf : ∀ e, (f e).broadcastOpen = e.broadcastOpen) (j ep : Nat) :
    (m.modify j f).listens ep = m.listens ep := by
  rw [modify, listens, listens, List.getElem?_modify]
  by_cases hj : j = ep
  · cases m.endpoints[ep]? <;> simp [hj, hf]
  · cases m.endpoints[ep]? <;> simp [hj]

theorem listens_dropBroadcast (j ep : Nat) :
    (m.dropBroadcast j).listens ep = if ep = j then false else m.listens ep := by
  rw [dropBroadcast, modify, listens, listens, List.getElem?_modify]
  by_cases hj : ep = j
  · subst hj
    cases m.endpoints[ep]? <;> simp
  · cases m.endpoints[ep]? <;> simp [hj, Ne.symm hj]

/-- Nobody joins or leaves, and nobody gives up receiving broadcasts. -/
structure Still (m m' : Mesh) : Prop where
  routes : m'.routes = m.routes
  peer? : ∀ ep, m'.peer? ep = m.peer? ep
  listens : ∀ ep, m'.listens ep = m.listens ep

namespace Still

theorem refl (m : Mesh) : Still m m :=
  ⟨rfl, fun _ => rfl, fun _ => rfl⟩

theorem of_requeued {f : Nat → List Bytes → List Bytes}
    {g : Nat → List (PeerId × Bytes) → List (PeerId × Bytes)} (h : Requeued m m' f g) :
    Still m m' where
  routes := h.routes
  peer? := h.peer?
  listens ep := by simp [Mesh.listens, h.endpoints, Option.any_map]

theorem modify {f : Endpoint → Endpoint} (hpeer : ∀ e, (f e).peer = e.peer)
    (hopen : ∀ e, (f e).broadcastOpen = e.broadcastOpen) (ep : Nat) : Still m (m.modify ep f) where
  routes := rfl
  peer? := peer?_modify hpeer ep
  listens := listens_modify hopen ep

theorem dropUnicast (ep : Nat) : Still m (m.dropUnicast ep) := by
  refine .modify ?_ ?_ ep
  · exact fun _ => rfl
  · exact fun _ => rfl

theorem broadcast (h : m.Leads) (ep : Nat) (payload : Bytes) (token : Token) :
    Still m (m.broadcast ep payload token).2 := by
  obtain ⟨-, hb⟩ | ⟨-, hb⟩ | ⟨p, m', -, -, hb, -, hre⟩ := h.broadcast_cases ep payload token
  · rw [hb]
    exact .refl m
  · rw [hb]
    exact .refl m
  · rw [hb]
    exact .of_requeued hre

theorem unicast (ep : Nat) (target : PeerId) (payload : Bytes) :
    Still m (m.unicast ep target payload).2 := by
  rw [Mesh.unicast]
  split
  · exact .refl m
  · exact .refl m
  · split
    · exact .refl m
    · split
      · refine .modify ?_ ?_ _
        · exact fun _ => rfl
        · exact fun _ => rfl
      · exact .refl m

theorem receiveBroadcast (ep : Nat) : Still m (m.receiveBroadcast ep).2 := by
  obtain ⟨payload, m', -, hg, -, hre⟩ | ⟨-, -, hg⟩ | ⟨-, -, hg⟩ := m.receiveBroadcast_cases ep
  · rw [hg]
    exact .of_requeued hre
  · rw [hg]
    exact .refl m
  · rw [hg]
    exact .refl m

theorem receiveUnicast (ep : Nat) : Still m (m.receiveUnicast ep).2 := by
  obtain ⟨item, m', -, hg, -, hre⟩ | ⟨-, -, hg⟩ | ⟨-, -, hg⟩ := m.receiveUnicast_cases ep
  · rw [hg]
    exact .of_requeued hre
  · rw [hg]
    exact .refl m
  · rw [hg]
    exact .refl m

end Still

/-- An act on the mesh, or a side of an endpoint that its owner gives up. -/
inductive Use
  | act (a : Act)
  | dropBroadcast (ep : Nat)
  | dropUnicast (ep : Nat)

structure Course where
  mesh : Mesh
  past : List Record
  dropped : List Nat

def Use.perform : Use → Course → Course
  | act a, c => { c with mesh := (a.perform c.mesh).2, past := (a.perform c.mesh).1 :: c.past }
  | dropBroadcast ep, c =>
    match peerOf? ep c.past with
    | none => c
    | some _ => { c with mesh := c.mesh.dropBroadcast ep, dropped := ep :: c.dropped }
  | dropUnicast ep, c => { c with mesh := c.mesh.dropUnicast ep }

def course (uses : List Use) : Course :=
  uses.foldl (fun c u => u.perform c) ⟨empty, [], []⟩

namespace Course

/-- The routes lead to the current endpoints of the peers, and broadcasts are received wherever
nobody gave up. -/
structure Agrees (c : Course) : Prop where
  peers : ∀ ep, c.mesh.peer? ep = peerOf? ep c.past
  routes : ∀ p : PeerId, c.mesh.routes.get? p.id = current? p c.past
  leads : c.mesh.Leads
  listens : ∀ ep, c.mesh.listens ep ↔ c.mesh.peer? ep ≠ none ∧ ep ∉ c.dropped
  dropped : ∀ ep ∈ c.dropped, c.mesh.peer? ep ≠ none

namespace Agrees

variable {c : Course}

theorem start : Agrees ⟨empty, [], []⟩ where
  peers _ := rfl
  routes _ := rfl
  leads p ep h := by cases h
  listens ep := by simp [Mesh.listens, Mesh.peer?, empty]
  dropped ep h := by cases h

theorem still (h : c.Agrees) {m' : Mesh} (hm : Still c.mesh m') {past' : List Record}
    (hpeerOf : ∀ ep, peerOf? ep past' = peerOf? ep c.past)
    (hcurrent : ∀ p, current? p past' = current? p c.past) :
    Agrees ⟨m', past', c.dropped⟩ where
  peers ep := by simp [hm.peer?, hpeerOf, h.peers]
  routes p := by simp [hm.routes, hcurrent, h.routes]
  leads p ep hr := by
    rw [hm.routes] at hr
    simp [hm.peer?, h.leads p ep hr]
  listens ep := by simp [hm.listens, hm.peer?, h.listens]
  dropped ep hep := by simpa [hm.peer?] using h.dropped ep hep

theorem join (h : c.Agrees) (p : PeerId) :
    Agrees ⟨(c.mesh.join p).2, .joined (c.mesh.join p).1 p :: c.past, c.dropped⟩ where
  peers ep := by
    rw [peer?_join, h.peers]
    rfl
  routes q := by
    rw [get?_routes_join, h.routes]
    rfl
  leads := h.leads.join p
  listens ep := by
    rw [listens_join, peer?_join]
    by_cases hep : ep = c.mesh.endpoints.length
    · -- The new endpoint was not there before, so that nobody can have given it up.
      have hnew : ep ∉ c.dropped := by
        intro hmem
        obtain ⟨q, hq⟩ := Option.ne_none_iff_exists'.mp (h.dropped ep hmem)
        exact absurd hep (Nat.ne_of_lt (peer?_lt hq))
      simp [hep, hep ▸ hnew]
    · simp [hep, h.listens]
  dropped ep hep := by
    rw [peer?_join]
    split
    · simp
    · exact h.dropped ep hep

theorem leave (h : c.Agrees) (p : PeerId) :
    Agrees ⟨c.mesh.leave p, .left p :: c.past, c.dropped⟩ where
  peers := h.peers
  routes q := by
    rw [get?_routes_leave, h.routes]
    rfl
  leads := h.leads.leave p
  listens := h.listens
  dropped := h.dropped

theorem act (h : c.Agrees) (a : Act) : (Use.perform (.act a) c).Agrees := by
  cases a with
  | join p => exact h.join p
  | leave p => exact h.leave p
  | broadcast ep payload token =>
    exact h.still (.broadcast h.leads ep payload token) (fun _ => rfl) fun _ => rfl
  | unicast ep target payload =>
    exact h.still (.unicast ep target payload) (fun _ => rfl) fun _ => rfl
  | receiveBroadcast ep => exact h.still (.receiveBroadcast ep) (fun _ => rfl) fun _ => rfl
  | receiveUnicast ep => exact h.still (.receiveUnicast ep) (fun _ => rfl) fun _ => rfl

theorem dropBroadcast (h : c.Agrees) (ep : Nat) : (Use.perform (.dropBroadcast ep) c).Agrees := by
  rw [Use.perform]
  have hpeer : ∀ j, (c.mesh.dropBroadcast ep).peer? j = c.mesh.peer? j :=
    peer?_modify (by simp) ep
  cases hep : peerOf? ep c.past with
  | none => exact h
  | some p =>
    refine ⟨fun j => ?_, h.routes, fun q j hr => ?_, fun j => ?_, fun j hj => ?_⟩
    · simp [hpeer, h.peers]
    · simp [hpeer, h.leads q j hr]
    · rw [listens_dropBroadcast, hpeer]
      by_cases hj : j = ep
      · simp [hj]
      · simp [hj, h.listens]
    · rw [hpeer]
      obtain rfl | hj := List.mem_cons.mp hj
      · simp [h.peers, hep]
      · exact h.dropped j hj

theorem perform (h : c.Agrees) (u : Use) : (u.perform c).Agrees := by
  cases u with
  | act a => exact h.act a
  | dropBroadcast ep => exact h.dropBroadcast ep
  | dropUnicast ep => exact h.still (.dropUnicast ep) (fun _ => rfl) fun _ => rfl

theorem foldl (h : c.Agrees) (uses : List Use) :
    (uses.foldl (fun c u => u.perform c) c).Agrees := by
  induction uses generalizing c with
  | nil => exact h
  | cons u uses ih => exact ih (h.perform u)

end Agrees

end Course

theorem agrees_course (uses : List Use) : (course uses).Agrees :=
  Course.Agrees.start.foldl uses

def neighbourIds (m : Mesh) (p : PeerId) : List String :=
  m.routes.keys.filter (· ≠ p.id)

theorem mem_neighbourIds {p : PeerId} {id : String} :
    id ∈ m.neighbourIds p ↔ (⟨id⟩ : PeerId) ≠ p ∧ ∃ ep, m.routes.get? id = some ep := by
  obtain ⟨self⟩ := p
  simp [neighbourIds, Dict.mem_keys_iff, and_comm]

theorem neighbourIds_pairwise (p : PeerId) :
    (m.neighbourIds p).Pairwise fun a b => utf8 a < utf8 b :=
  (m.routes.keys_pairwise.imp utf8_lt_of_lt).filter _

theorem peersVal_neighbours (p : PeerId) :
    peersVal (m.neighbours p) = .list ((m.neighbourIds p).map .string) := by
  rw [peersVal, neighbours, List.map_map]
  rfl

theorem mem_recipients_iff {p : PeerId} {ep : Nat} :
    ep ∈ m.recipients p ↔ ∃ id ∈ m.neighbourIds p, m.routes.get? id = some ep := by
  rw [mem_recipients]
  constructor
  · rintro ⟨⟨id⟩, hne, hr⟩
    exact ⟨id, mem_neighbourIds.mpr ⟨hne, ep, hr⟩, hr⟩
  · rintro ⟨id, hid, hr⟩
    exact ⟨⟨id⟩, (mem_neighbourIds.mp hid).1, hr⟩

/-- An accepted broadcast is queued where a neighbour of its sender still listens. -/
theorem broadcasts_of_accepted (hleads : m.Leads) {ep : Nat} {p : PeerId} {payload : Bytes}
    {token : Token} (hp : m.peer? ep = some p)
    (hok : m.broadcast ep payload token = (.ok (), m')) (j : Nat) :
    m'.broadcasts j = m.broadcasts j ++
      if j ∈ m.recipients p ∧ m.listens j then [payload] else [] := by
  obtain ⟨-, hb⟩ | ⟨-, hb⟩ | ⟨q, m₁, hq, -, hb, -, hre⟩ := hleads.broadcast_cases ep payload token
  · rw [hb] at hok
    cases hok
  · rw [hb] at hok
    cases hok
  · rw [hb] at hok
    cases hok
    cases hp.symm.trans hq
    have hnone : m.peer? j = none → ¬(j ∈ m.recipients p ∧ m.listens j) := by
      rintro hj ⟨hmem, -⟩
      obtain ⟨q, -, hr⟩ := mem_recipients.mp hmem
      cases hj.symm.trans (hleads q j hr)
    rw [hre.broadcasts fun hj => if_neg (hnone hj)]
    split <;> simp

/-- The view that was once installed shows who has joined and not left since, apart from the peer
itself, in ascending order. These are the peers that a broadcast from any endpoint of that peer is
queued to, unless they gave up receiving. -/
theorem live_view (uses : List Use) (p : PeerId) (s₀ : Store) (edits : List Edit)
    (habsent : s₀.get? Store.viewsKey = none)
    (hedits : ∀ e ∈ edits, e.key? ≠ some Store.viewsKey) :
    let c := course uses
    let s := (s₀.installDefaults (some (.mesh p))).edited edits
    ∃ ids : List String,
      s.resolve c.mesh.neighbours Store.viewsKey = (.ok (some (.list (ids.map .string))), s) ∧
      ids.Pairwise (fun a b => utf8 a < utf8 b) ∧
      (∀ id, id ∈ ids ↔ (⟨id⟩ : PeerId) ≠ p ∧ ∃ ep, current? ⟨id⟩ c.past = some ep) ∧
      ∀ ep payload token m', peerOf? ep c.past = some p →
        c.mesh.broadcast ep payload token = (.ok (), m') →
        ∀ j, m'.broadcasts j = c.mesh.broadcasts j ++
          if j ∉ c.dropped ∧ ∃ id ∈ ids, current? ⟨id⟩ c.past = some j then [payload] else [] := by
  intro c s
  have h : c.Agrees := agrees_course uses
  have hroutes : ∀ id, c.mesh.routes.get? id = current? ⟨id⟩ c.past := fun id => h.routes ⟨id⟩
  refine ⟨c.mesh.neighbourIds p, ?_, neighbourIds_pairwise p, fun id => ?_, ?_⟩
  · rw [← peersVal_neighbours]
    exact Store.resolve_views habsent hedits c.mesh.neighbours
  · simp only [mem_neighbourIds, hroutes]
  · intro ep payload token m' hep hok j
    rw [broadcasts_of_accepted h.leads ((h.peers ep).trans hep) hok]
    congr 1
    refine if_congr ?_ rfl rfl
    simp only [mem_recipients_iff, ← hroutes, h.listens]
    constructor
    · rintro ⟨hids, -, hj⟩
      exact ⟨hj, hids⟩
    · rintro ⟨hj, id, hid, hr⟩
      exact ⟨⟨id, hid, hr⟩, by simp [h.leads ⟨id⟩ j hr], hj⟩

/-- A peer joins again and is reached where it is now, one leaves, and one gives up receiving, which
the view does not know of. -/
theorem live_view_rejoined :
    let c := course [.act (.join ⟨"a"⟩), .act (.join ⟨"b"⟩), .act (.join ⟨"c"⟩),
      .act (.join ⟨"b"⟩), .act (.leave ⟨"c"⟩), .act (.join ⟨"d"⟩), .dropBroadcast 4]
    let s := (Store.empty.installDefaults (some (.mesh ⟨"a"⟩))).edited [.insert "k" (.value .unit)]
    let m' := (c.mesh.broadcast 0 [7] ⟨⟨"a"⟩, 1⟩).2
    ∃ ids : List String,
      s.resolve c.mesh.neighbours Store.viewsKey = (.ok (some (.list (ids.map .string))), s) ∧
      ("a" ∉ ids ∧ "b" ∈ ids ∧ "c" ∉ ids ∧ "d" ∈ ids) ∧
      m'.broadcasts 3 = [[7]] ∧ m'.broadcasts 4 = [] := by
  intro c s m'
  obtain ⟨ids, hview, -, hids, hqueues⟩ :=
    live_view [.act (.join ⟨"a"⟩), .act (.join ⟨"b"⟩), .act (.join ⟨"c"⟩), .act (.join ⟨"b"⟩),
        .act (.leave ⟨"c"⟩), .act (.join ⟨"d"⟩), .dropBroadcast 4]
      ⟨"a"⟩ .empty [.insert "k" (.value .unit)] rfl (by simp [Edit.key?, Store.viewsKey])
  have hb : "b" ∈ ids := (hids "b").mpr ⟨by decide, 3, rfl⟩
  have hqueue := hqueues 0 [7] ⟨⟨"a"⟩, 1⟩ m' rfl rfl
  refine ⟨ids, hview, ⟨?_, hb, ?_, (hids "d").mpr ⟨by decide, 4, rfl⟩⟩, ?_, ?_⟩
  · exact fun ha => ((hids "a").mp ha).1 rfl
  · intro hc
    obtain ⟨-, ep, hep⟩ := (hids "c").mp hc
    cases hep
  · exact (hqueue 3).trans (congrArg _ (if_pos ⟨by decide, "b", hb, rfl⟩))
  · exact (hqueue 4).trans (congrArg _ (if_neg fun h => h.1 (by decide)))

end PeerMesh.Mesh
