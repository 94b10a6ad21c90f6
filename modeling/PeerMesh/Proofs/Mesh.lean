import PeerMesh.Mesh
import PeerMesh.Proofs.Fields

namespace PeerMesh.Mesh

variable (m : Mesh)

def peer? (ep : Nat) : Option PeerId :=
  m.endpoints[ep]?.map (·.peer)

def broadcasts (ep : Nat) : List Bytes :=
  (m.endpoints[ep]?.map (·.broadcasts)).getD []

def unicasts (ep : Nat) : List (PeerId × Bytes) :=
  (m.endpoints[ep]?.map (·.unicasts)).getD []

def listens (ep : Nat) : Bool :=
  m.endpoints[ep]?.any (·.broadcastOpen)

/-- The endpoint is the current one of its peer. -/
def Routed (ep : Nat) : Prop :=
  ∃ p, m.peer? ep = some p ∧ m.routes.get? p.id = some ep

/-- Every route leads to an endpoint of its peer. -/
def Leads : Prop :=
  ∀ (p : PeerId) (ep : Nat), m.routes.get? p.id = some ep → m.peer? ep = some p

/-- Every route leads to an endpoint of its peer, and nobody gave up receiving. -/
structure Sound : Prop where
  route : ∀ p ep, m.routes.get? p.id = some ep → m.peer? ep = some p
  opened : ∀ (ep : Nat) (e : Endpoint), m.endpoints[ep]? = some e →
    e.broadcastOpen ∧ e.unicastOpen

theorem sound_empty : Sound empty where
  route p ep h := by cases h
  opened ep e h := by cases h

variable {m}

theorem peer?_eq_some {ep : Nat} {e : Endpoint} (h : m.endpoints[ep]? = some e) :
    m.peer? ep = some e.peer := by
  rw [peer?, h]
  rfl

theorem broadcasts_eq {ep : Nat} {e : Endpoint} (h : m.endpoints[ep]? = some e) :
    m.broadcasts ep = e.broadcasts := by
  rw [broadcasts, h]
  rfl

theorem unicasts_eq {ep : Nat} {e : Endpoint} (h : m.endpoints[ep]? = some e) :
    m.unicasts ep = e.unicasts := by
  rw [unicasts, h]
  rfl

theorem mem_recipients {p : PeerId} {ep : Nat} :
    ep ∈ m.recipients p ↔ ∃ q : PeerId, q ≠ p ∧ m.routes.get? q.id = some ep := by
  rw [recipients, List.mem_map]
  constructor
  · rintro ⟨⟨k, r⟩, hr, rfl⟩
    obtain ⟨hmem, hne⟩ := List.mem_filter.mp hr
    refine ⟨⟨k⟩, ?_, m.routes.mem_fields_iff.mp hmem⟩
    rintro rfl
    simp at hne
  · rintro ⟨q, hq, hr⟩
    refine ⟨(q.id, ep), List.mem_filter.mpr ⟨m.routes.mem_fields_iff.mpr hr, ?_⟩, rfl⟩
    have hid : q.id ≠ p.id := fun he => hq (congrArg PeerId.mk he)
    simpa using hid

theorem Leads.nodup_recipients (h : m.Leads) (p : PeerId) : (m.recipients p).Nodup := by
  have hkeys : m.routes.fields.Pairwise fun a b => a.1 ≠ b.1 := by
    refine m.routes.ascending.imp fun {a b} hlt he => ?_
    rw [he] at hlt
    exact String.lt_irrefl _ hlt
  have hvalues : m.routes.fields.Pairwise fun a b => a.2 ≠ b.2 := by
    refine hkeys.imp_of_mem fun {a b} ha hb hne he => hne ?_
    have hpa := h ⟨a.1⟩ a.2 (m.routes.mem_fields_iff.mp ha)
    have hpb := h ⟨b.1⟩ b.2 (m.routes.mem_fields_iff.mp hb)
    rw [he, hpb] at hpa
    exact (congrArg PeerId.id (Option.some.inj hpa)).symm
  exact List.pairwise_map.mpr (hvalues.filter _)

namespace Sound

theorem mem_recipients (h : m.Sound) {p : PeerId} {ep : Nat} :
    ep ∈ m.recipients p ↔ m.Routed ep ∧ m.peer? ep ≠ some p := by
  rw [Mesh.mem_recipients]
  constructor
  · rintro ⟨q, hq, hr⟩
    have hp := h.route q ep hr
    refine ⟨⟨q, hp, hr⟩, ?_⟩
    rw [hp]
    exact fun he => hq (Option.some.inj he)
  · rintro ⟨⟨q, hp, hr⟩, hne⟩
    refine ⟨q, ?_, hr⟩
    rintro rfl
    exact hne hp

end Sound

theorem endpoints_foldl_modify (f : Endpoint → Endpoint) {eps : List Nat} (h : eps.Nodup)
    (m : Mesh) (j : Nat) :
    (eps.foldl (fun m ep => m.modify ep f) m).endpoints[j]? =
      m.endpoints[j]?.map fun e => if j ∈ eps then f e else e := by
  induction eps generalizing m with
  | nil => simp
  | cons ep eps ih =>
    obtain ⟨hep, hnodup⟩ := List.nodup_cons.mp h
    rw [List.foldl_cons, ih hnodup, modify]
    dsimp only
    rw [List.getElem?_modify, Option.map_eq_map, Option.map_map]
    congr 1
    funext e
    by_cases hj : ep = j
    · subst hj
      simp [hep]
    · simp [hj, Ne.symm hj]

theorem routes_foldl_modify (f : Endpoint → Endpoint) (eps : List Nat) (m : Mesh) :
    (eps.foldl (fun m ep => m.modify ep f) m).routes = m.routes := by
  induction eps generalizing m with
  | nil => rfl
  | cons ep eps ih => exact ih _

theorem delivered_foldl_modify (f : Endpoint → Endpoint) (eps : List Nat) (m : Mesh) :
    (eps.foldl (fun m ep => m.modify ep f) m).delivered = m.delivered := by
  induction eps generalizing m with
  | nil => rfl
  | cons ep eps ih => exact ih _

/-- Only queues changed, and by `f` and `g` at each endpoint. -/
structure Requeued (m m' : Mesh) (f : Nat → List Bytes → List Bytes)
    (g : Nat → List (PeerId × Bytes) → List (PeerId × Bytes)) : Prop where
  routes : m'.routes = m.routes
  endpoints : ∀ j : Nat, m'.endpoints[j]? = m.endpoints[j]?.map fun e : Endpoint =>
    { e with broadcasts := f j e.broadcasts, unicasts := g j e.unicasts }

namespace Requeued

variable {m' : Mesh} {f : Nat → List Bytes → List Bytes}
  {g : Nat → List (PeerId × Bytes) → List (PeerId × Bytes)}

theorem peer? (h : Requeued m m' f g) (ep : Nat) : m'.peer? ep = m.peer? ep := by
  rw [Mesh.peer?, h.endpoints, Option.map_map]
  rfl

theorem broadcasts (h : Requeued m m' f g) {ep : Nat} (hep : m.peer? ep = none → f ep [] = []) :
    m'.broadcasts ep = f ep (m.broadcasts ep) := by
  rw [Mesh.broadcasts, Mesh.broadcasts, h.endpoints]
  rw [Mesh.peer?] at hep
  cases he : m.endpoints[ep]? with
  | none =>
    rw [he] at hep
    exact (hep rfl).symm
  | some e => rfl

theorem unicasts (h : Requeued m m' f g) {ep : Nat} (hep : m.peer? ep = none → g ep [] = []) :
    m'.unicasts ep = g ep (m.unicasts ep) := by
  rw [Mesh.unicasts, Mesh.unicasts, h.endpoints]
  rw [Mesh.peer?] at hep
  cases he : m.endpoints[ep]? with
  | none =>
    rw [he] at hep
    exact (hep rfl).symm
  | some e => rfl

theorem sound (h : Requeued m m' f g) (hm : m.Sound) : m'.Sound where
  route p ep hr := by
    rw [h.routes] at hr
    rw [h.peer?, hm.route p ep hr]
  opened ep e he := by
    rw [h.endpoints] at he
    obtain ⟨e', he', rfl⟩ := Option.map_eq_some_iff.mp he
    exact hm.opened ep e' he'

end Requeued

end PeerMesh.Mesh
