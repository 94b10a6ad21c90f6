import PeerMesh.Proofs.Mesh

namespace PeerMesh.Mesh

variable {m : Mesh}

theorem last_insert (m : Mesh) (endpoints : List Endpoint) (t : Token) (p : PeerId) :
    Mesh.last ⟨endpoints, m.routes, m.delivered.insert t.origin.id t.counter⟩ p =
      if p = t.origin then t.counter else m.last p := by
  rw [last, last, Dict.get?_insert]
  by_cases hp : p = t.origin
  · rw [if_pos hp, if_pos (congrArg PeerId.id hp)]
    rfl
  · rw [if_neg hp, if_neg fun he => hp (congrArg PeerId.mk he)]

theorem endpoints_join (p : PeerId) (ep : Nat) :
    (m.join p).2.endpoints[ep]? =
      if ep = m.endpoints.length then some ⟨p, [], [], true, true⟩ else m.endpoints[ep]? := by
  rw [join]
  dsimp only
  by_cases hep : ep = m.endpoints.length
  · rw [if_pos hep, hep, List.getElem?_concat_length]
  · rw [if_neg hep, List.getElem?_append]
    split
    · rfl
    · have hlen : m.endpoints.length ≤ ep := by omega
      rw [List.getElem?_eq_none hlen]
      exact List.getElem?_eq_none (by simp only [List.length_singleton]; omega)

theorem peer?_join (p : PeerId) (ep : Nat) :
    (m.join p).2.peer? ep = if ep = m.endpoints.length then some p else m.peer? ep := by
  rw [peer?, endpoints_join]
  split
  · rfl
  · rfl

theorem broadcasts_join (p : PeerId) (ep : Nat) :
    (m.join p).2.broadcasts ep = m.broadcasts ep := by
  rw [broadcasts, broadcasts, endpoints_join]
  split
  · next hep => rw [hep, List.getElem?_eq_none (Nat.le_refl _)]; rfl
  · rfl

theorem unicasts_join (p : PeerId) (ep : Nat) : (m.join p).2.unicasts ep = m.unicasts ep := by
  rw [unicasts, unicasts, endpoints_join]
  split
  · next hep => rw [hep, List.getElem?_eq_none (Nat.le_refl _)]; rfl
  · rfl

theorem get?_routes_join (p q : PeerId) :
    (m.join p).2.routes.get? q.id =
      if q = p then some m.endpoints.length else m.routes.get? q.id := by
  rw [join]
  dsimp only
  rw [Dict.get?_insert]
  by_cases hq : q = p
  · rw [if_pos hq, if_pos (congrArg PeerId.id hq)]
  · rw [if_neg hq, if_neg fun he => hq (congrArg PeerId.mk he)]

theorem get?_routes_leave (p q : PeerId) :
    (m.leave p).routes.get? q.id = if q = p then none else m.routes.get? q.id := by
  rw [leave]
  dsimp only
  rw [Dict.get?_erase]
  by_cases hq : q = p
  · rw [if_pos hq, if_pos (congrArg PeerId.id hq)]
  · rw [if_neg hq, if_neg fun he => hq (congrArg PeerId.mk he)]

theorem peer?_lt {p : PeerId} {ep : Nat} (h : m.peer? ep = some p) : ep < m.endpoints.length := by
  rw [peer?] at h
  obtain ⟨e, he, -⟩ := Option.map_eq_some_iff.mp h
  exact (List.getElem?_eq_some_iff.mp he).1

namespace Leads

theorem join (h : m.Leads) (p : PeerId) : (m.join p).2.Leads := by
  intro q ep hr
  rw [get?_routes_join] at hr
  rw [peer?_join]
  by_cases hq : q = p
  · rw [if_pos hq] at hr
    rw [if_pos (Option.some.inj hr).symm, hq]
  · rw [if_neg hq] at hr
    have hp := h q ep hr
    rw [if_neg (Nat.ne_of_lt (peer?_lt hp)), hp]

theorem leave (h : m.Leads) (p : PeerId) : (m.leave p).Leads := by
  intro q ep hr
  rw [get?_routes_leave] at hr
  split at hr
  · cases hr
  · exact h q ep hr

end Leads

namespace Sound

theorem join (h : m.Sound) (p : PeerId) : (m.join p).2.Sound where
  route := Leads.join h.route p
  opened ep e he := by
    rw [endpoints_join] at he
    split at he
    · cases he
      exact ⟨rfl, rfl⟩
    · exact h.opened ep e he

theorem leave (h : m.Sound) (p : PeerId) : (m.leave p).Sound where
  route := Leads.leave h.route p
  opened := h.opened

end Sound

/-- A broadcast is refused, which changes nothing, or it is queued once for each endpoint that is
the current one of another peer and still listens. -/
theorem Leads.broadcast_cases (h : m.Leads) (ep : Nat) (payload : Bytes) (t : Token) :
    (m.endpoints[ep]? = none ∧
      m.broadcast ep payload t = (.error (.connectionLost "Channel closed"), m)) ∨
    (t.counter ≤ m.last t.origin ∧ m.broadcast ep payload t = (.error (.staleToken t), m)) ∨
    (∃ p m', m.peer? ep = some p ∧ m.last t.origin < t.counter ∧
      m.broadcast ep payload t = (.ok (), m') ∧
      m'.delivered = m.delivered.insert t.origin.id t.counter ∧
      Requeued m m'
        (fun j q => if j ∈ m.recipients p ∧ m.listens j then q ++ [payload] else q)
        (fun _ q => q)) := by
  rw [broadcast]
  cases he : m.endpoints[ep]? with
  | none => exact .inl ⟨rfl, rfl⟩
  | some e =>
    dsimp only
    by_cases hle : t.counter ≤ m.last t.origin
    · rw [if_pos hle]
      exact .inr (.inl ⟨hle, rfl⟩)
    · rw [if_neg hle]
      refine .inr (.inr ⟨e.peer, _, peer?_eq_some he, UInt64.not_le.mp hle, rfl, ?_, ?_, ?_⟩)
      · exact delivered_foldl_modify ..
      · exact routes_foldl_modify ..
      · intro j
        have hnodup := h.nodup_recipients e.peer
        refine (endpoints_foldl_modify _ hnodup _ j).trans (Option.map_congr fun e' he' => ?_)
        obtain ⟨q, broadcasts, unicasts, isOpen, unicastOpen⟩ := e'
        have hlistens : m.listens j = isOpen := by simp [listens, he']
        rw [hlistens, Endpoint.pushBroadcast]
        by_cases hj : j ∈ m.recipients e.peer
        · cases isOpen <;> simp [hj]
        · simp [hj]

theorem broadcast_cases (h : m.Sound) (ep : Nat) (payload : Bytes) (t : Token) :
    (m.endpoints[ep]? = none ∧
      m.broadcast ep payload t = (.error (.connectionLost "Channel closed"), m)) ∨
    (t.counter ≤ m.last t.origin ∧ m.broadcast ep payload t = (.error (.staleToken t), m)) ∨
    (∃ p m', m.peer? ep = some p ∧ m.last t.origin < t.counter ∧
      m.broadcast ep payload t = (.ok (), m') ∧
      m'.delivered = m.delivered.insert t.origin.id t.counter ∧
      Requeued m m' (fun j q => if j ∈ m.recipients p then q ++ [payload] else q)
        (fun _ q => q)) := by
  refine (Leads.broadcast_cases h.route ep payload t).imp_right (Or.imp_right ?_)
  rintro ⟨p, m', hp, hlt, hok, hdelivered, hre⟩
  refine ⟨p, m', hp, hlt, hok, hdelivered, hre.routes, fun j => ?_⟩
  refine (hre.endpoints j).trans (Option.map_congr fun e he => ?_)
  simp [listens, he, (h.opened j e he).1]

theorem unicast_cases (h : m.Sound) (ep : Nat) (target : PeerId) (payload : Bytes) :
    (∃ e, m.unicast ep target payload = (.error e, m)) ∨
    (∃ p r m', m.peer? ep = some p ∧ m.routes.get? target.id = some r ∧
      m.unicast ep target payload = (.ok (), m') ∧ m'.delivered = m.delivered ∧
      Requeued m m' (fun _ q => q) (fun j q => if j = r then q ++ [(p, payload)] else q)) := by
  rw [unicast]
  cases he : m.endpoints[ep]? with
  | none => exact .inl ⟨_, rfl⟩
  | some e =>
    cases hr : m.routes.get? target.id with
    | none => exact .inl ⟨_, rfl⟩
    | some r =>
      dsimp only
      cases hrec : m.endpoints[r]? with
      | none => exact .inl ⟨_, rfl⟩
      | some receiver =>
        dsimp only
        rw [if_pos (h.opened r receiver hrec).2]
        refine .inr ⟨e.peer, r, _, peer?_eq_some he, rfl, rfl, rfl, rfl, fun j => ?_⟩
        rw [modify, List.getElem?_modify]
        refine Option.map_congr fun e' _ => ?_
        by_cases hj : j = r
        · rw [if_pos hj.symm, if_pos hj]
          rfl
        · rw [if_neg (Ne.symm hj), if_neg hj]

theorem isRouted_iff {ep : Nat} {e : Endpoint} (he : m.endpoints[ep]? = some e) :
    m.isRouted ep e ↔ m.Routed ep := by
  rw [isRouted, beq_iff_eq, Routed, peer?_eq_some he]
  constructor
  · exact fun h => ⟨e.peer, rfl, h⟩
  · rintro ⟨p, hp, h⟩
    cases hp
    exact h

theorem not_routed {ep : Nat} (he : m.endpoints[ep]? = none) : ¬m.Routed ep := by
  rintro ⟨p, hp, -⟩
  rw [peer?, he] at hp
  cases hp

theorem nothing_cases {α : Type} {ep : Nat} {e : Endpoint} (he : m.endpoints[ep]? = some e) :
    m.Routed ep ∧ (if m.isRouted ep e then Received.empty else .closed) = (.empty : Received α) ∨
    ¬m.Routed ep ∧
      (if m.isRouted ep e then Received.empty else .closed) = (.closed : Received α) := by
  by_cases hr : m.isRouted ep e
  · exact .inl ⟨(isRouted_iff he).mp hr, if_pos hr⟩
  · exact .inr ⟨mt (isRouted_iff he).mpr hr, if_neg hr⟩

theorem receiveBroadcast_cases (m : Mesh) (ep : Nat) :
    (∃ payload m', payload :: m'.broadcasts ep = m.broadcasts ep ∧
      m.receiveBroadcast ep = (.item payload, m') ∧ m'.delivered = m.delivered ∧
      Requeued m m' (fun j q => if j = ep then q.tail else q) (fun _ q => q)) ∨
    (m.broadcasts ep = [] ∧ m.Routed ep ∧ m.receiveBroadcast ep = (.empty, m)) ∨
    (m.broadcasts ep = [] ∧ ¬m.Routed ep ∧ m.receiveBroadcast ep = (.closed, m)) := by
  rw [receiveBroadcast]
  cases he : m.endpoints[ep]? with
  | none =>
    refine .inr (.inr ⟨?_, not_routed he, rfl⟩)
    rw [broadcasts, he]
    rfl
  | some e =>
    dsimp only
    cases hq : e.broadcasts with
    | nil =>
      have hnil := (broadcasts_eq he).trans hq
      obtain ⟨hr, heq⟩ | ⟨hr, heq⟩ := nothing_cases (α := Bytes) he
      · exact .inr (.inl ⟨hnil, hr, by dsimp only; rw [heq]⟩)
      · exact .inr (.inr ⟨hnil, hr, by dsimp only; rw [heq]⟩)
    | cons payload rest =>
      have hre : Requeued m (m.modify ep fun e => { e with broadcasts := rest })
          (fun j q => if j = ep then q.tail else q) (fun _ q => q) := by
        refine ⟨rfl, fun j => ?_⟩
        rw [modify, List.getElem?_modify]
        refine Option.map_congr fun e' he' => ?_
        by_cases hj : j = ep
        · subst hj
          cases he.symm.trans he'
          rw [if_pos rfl, if_pos rfl, hq]
          rfl
        · rw [if_neg (Ne.symm hj), if_neg hj]
      refine .inl ⟨payload, _, ?_, rfl, rfl, hre⟩
      rw [hre.broadcasts (by simp), if_pos rfl, broadcasts_eq he, hq]
      rfl

theorem receiveUnicast_cases (m : Mesh) (ep : Nat) :
    (∃ item m', item :: m'.unicasts ep = m.unicasts ep ∧
      m.receiveUnicast ep = (.item item, m') ∧ m'.delivered = m.delivered ∧
      Requeued m m' (fun _ q => q) (fun j q => if j = ep then q.tail else q)) ∨
    (m.unicasts ep = [] ∧ m.Routed ep ∧ m.receiveUnicast ep = (.empty, m)) ∨
    (m.unicasts ep = [] ∧ ¬m.Routed ep ∧ m.receiveUnicast ep = (.closed, m)) := by
  rw [receiveUnicast]
  cases he : m.endpoints[ep]? with
  | none =>
    refine .inr (.inr ⟨?_, not_routed he, rfl⟩)
    rw [unicasts, he]
    rfl
  | some e =>
    dsimp only
    cases hq : e.unicasts with
    | nil =>
      have hnil := (unicasts_eq he).trans hq
      obtain ⟨hr, heq⟩ | ⟨hr, heq⟩ := nothing_cases (α := PeerId × Bytes) he
      · exact .inr (.inl ⟨hnil, hr, by dsimp only; rw [heq]⟩)
      · exact .inr (.inr ⟨hnil, hr, by dsimp only; rw [heq]⟩)
    | cons item rest =>
      have hre : Requeued m (m.modify ep fun e => { e with unicasts := rest })
          (fun _ q => q) (fun j q => if j = ep then q.tail else q) := by
        refine ⟨rfl, fun j => ?_⟩
        rw [modify, List.getElem?_modify]
        refine Option.map_congr fun e' he' => ?_
        by_cases hj : j = ep
        · subst hj
          cases he.symm.trans he'
          rw [if_pos rfl, if_pos rfl, hq]
          rfl
        · rw [if_neg (Ne.symm hj), if_neg hj]
      refine .inl ⟨item, _, ?_, rfl, rfl, hre⟩
      rw [hre.unicasts (by simp), if_pos rfl, unicasts_eq he, hq]
      rfl

end PeerMesh.Mesh
