import PeerMesh.Proofs.Mesh.Operations

namespace PeerMesh.Mesh

inductive Act
  | join (peer : PeerId)
  | leave (peer : PeerId)
  | broadcast (ep : Nat) (payload : Bytes) (token : Token)
  | unicast (ep : Nat) (target : PeerId) (payload : Bytes)
  | receiveBroadcast (ep : Nat)
  | receiveUnicast (ep : Nat)

inductive Record
  | joined (ep : Nat) (peer : PeerId)
  | left (peer : PeerId)
  | broadcast (ep : Nat) (payload : Bytes) (token : Token) (result : Except TransportError Unit)
  | unicast (ep : Nat) (target : PeerId) (payload : Bytes) (result : Except TransportError Unit)
  | gotBroadcast (ep : Nat) (found : Received Bytes)
  | gotUnicast (ep : Nat) (found : Received (PeerId × Bytes))

def Act.perform : Act → Mesh → Record × Mesh
  | join peer, m => (.joined (m.join peer).1 peer, (m.join peer).2)
  | leave peer, m => (.left peer, m.leave peer)
  | broadcast ep payload token, m =>
    let (result, m) := m.broadcast ep payload token
    (.broadcast ep payload token result, m)
  | unicast ep target payload, m =>
    let (result, m) := m.unicast ep target payload
    (.unicast ep target payload result, m)
  | receiveBroadcast ep, m =>
    let (found, m) := m.receiveBroadcast ep
    (.gotBroadcast ep found, m)
  | receiveUnicast ep, m =>
    let (found, m) := m.receiveUnicast ep
    (.gotUnicast ep found, m)

/-- Acts one after the other. The latest record comes first. -/
def runActs (acts : List Act) (m : Mesh) (past : List Record) : Mesh × List Record :=
  acts.foldl (fun p a => ((a.perform p.1).2, (a.perform p.1).1 :: p.2)) (m, past)

def peerOf? (ep : Nat) : List Record → Option PeerId
  | [] => none
  | .joined j p :: past => if ep = j then some p else peerOf? ep past
  | _ :: past => peerOf? ep past

/-- The endpoint that a peer got when it joined last, unless it left since. -/
def current? (p : PeerId) : List Record → Option Nat
  | [] => none
  | .joined j q :: past => if p = q then some j else current? p past
  | .left q :: past => if p = q then none else current? p past
  | _ :: past => current? p past

def isCurrent (ep : Nat) (past : List Record) : Bool :=
  match peerOf? ep past with
  | none => false
  | some p => current? p past == some ep

structure Sending where
  sender : Nat
  payload : Bytes
  token : Token
  past : List Record

/-- The accepted broadcasts in the order of their acceptance. -/
def sendings : List Record → List Sending
  | [] => []
  | .broadcast ep payload token (.ok _) :: past =>
    sendings past ++ [⟨ep, payload, token, past⟩]
  | _ :: past => sendings past

/-- A broadcast is for the current endpoints of the peers other than its sender. -/
def Sending.isFor (ep : Nat) (s : Sending) : Bool :=
  isCurrent ep s.past && peerOf? ep s.past != peerOf? s.sender s.past

structure Parcel where
  sender : Nat
  target : PeerId
  payload : Bytes
  past : List Record

def parcels : List Record → List Parcel
  | [] => []
  | .unicast ep target payload (.ok _) :: past =>
    parcels past ++ [⟨ep, target, payload, past⟩]
  | _ :: past => parcels past

/-- A unicast is for the current endpoint of its target. -/
def Parcel.isFor (ep : Nat) (s : Parcel) : Bool :=
  current? s.target s.past == some ep

def Parcel.content (s : Parcel) : Option PeerId × Bytes :=
  (peerOf? s.sender s.past, s.payload)

def receivedBroadcasts (ep : Nat) : List Record → List Bytes
  | [] => []
  | .gotBroadcast j (.item payload) :: past =>
    receivedBroadcasts ep past ++ if ep = j then [payload] else []
  | _ :: past => receivedBroadcasts ep past

def receivedUnicasts (ep : Nat) : List Record → List (PeerId × Bytes)
  | [] => []
  | .gotUnicast j (.item item) :: past =>
    receivedUnicasts ep past ++ if ep = j then [item] else []
  | _ :: past => receivedUnicasts ep past

/-- The mesh is what its history says: the current endpoints, the highest counters, and queues that
hold what is due and was not received yet. -/
structure Tracks (m : Mesh) (past : List Record) : Prop where
  sound : m.Sound
  peers : ∀ ep, m.peer? ep = peerOf? ep past
  routes : ∀ p : PeerId, m.routes.get? p.id = current? p past
  seen : ∀ s ∈ sendings past, s.token.counter ≤ m.last s.token.origin
  reached : ∀ p, m.last p = 0 ∨
    ∃ s ∈ sendings past, s.token.origin = p ∧ s.token.counter = m.last p
  increasing : (sendings past).Pairwise fun s t =>
    s.token.origin = t.token.origin → s.token.counter < t.token.counter
  broadcasts : ∀ ep, receivedBroadcasts ep past ++ m.broadcasts ep =
    ((sendings past).filter (Sending.isFor ep)).map Sending.payload
  unicasts : ∀ ep, (receivedUnicasts ep past ++ m.unicasts ep).map (fun i => (some i.1, i.2)) =
    ((parcels past).filter (Parcel.isFor ep)).map Parcel.content

namespace Tracks

variable {m : Mesh} {past : List Record}

theorem start : Tracks empty [] where
  sound := sound_empty
  peers ep := rfl
  routes p := rfl
  seen s hs := by cases hs
  reached p := .inl rfl
  increasing := .nil
  broadcasts ep := rfl
  unicasts ep := rfl

theorem isCurrent_iff (h : Tracks m past) (ep : Nat) : isCurrent ep past ↔ m.Routed ep := by
  rw [isCurrent, Routed, h.peers]
  cases peerOf? ep past with
  | none => simp
  | some p => simp [h.routes]

theorem mem_recipients_iff (h : Tracks m past) {p : PeerId} {sender : Nat}
    (hp : m.peer? sender = some p) (payload : Bytes) (token : Token) (ep : Nat) :
    ep ∈ m.recipients p ↔ Sending.isFor ep ⟨sender, payload, token, past⟩ := by
  rw [h.sound.mem_recipients, Sending.isFor, Bool.and_eq_true, h.isCurrent_iff, bne_iff_ne,
    ← h.peers, ← h.peers, hp]

theorem join (h : Tracks m past) (p : PeerId) :
    Tracks (m.join p).2 (.joined (m.join p).1 p :: past) where
  sound := h.sound.join p
  peers ep := by
    rw [peer?_join, h.peers]
    rfl
  routes q := by
    rw [get?_routes_join, h.routes]
    rfl
  seen := h.seen
  reached := h.reached
  increasing := h.increasing
  broadcasts ep := by
    rw [broadcasts_join]
    exact h.broadcasts ep
  unicasts ep := by
    rw [unicasts_join]
    exact h.unicasts ep

theorem leave (h : Tracks m past) (p : PeerId) : Tracks (m.leave p) (.left p :: past) where
  sound := h.sound.leave p
  peers := h.peers
  routes q := by
    rw [get?_routes_leave, h.routes]
    rfl
  seen := h.seen
  reached := h.reached
  increasing := h.increasing
  broadcasts := h.broadcasts
  unicasts := h.unicasts

theorem broadcast (h : Tracks m past) (ep : Nat) (payload : Bytes) (token : Token) :
    Tracks (m.broadcast ep payload token).2
      (.broadcast ep payload token (m.broadcast ep payload token).1 :: past) := by
  obtain ⟨-, hb⟩ | ⟨-, hb⟩ | ⟨p, m', hp, hlt, hb, hdelivered, hre⟩ :=
    broadcast_cases h.sound ep payload token
  · rw [hb]
    exact ⟨h.sound, h.peers, h.routes, h.seen, h.reached, h.increasing, h.broadcasts,
      h.unicasts⟩
  · rw [hb]
    exact ⟨h.sound, h.peers, h.routes, h.seen, h.reached, h.increasing, h.broadcasts,
      h.unicasts⟩
  · rw [hb]
    have hlast : ∀ q, m'.last q = if q = token.origin then token.counter else m.last q := by
      intro q
      have := last_insert m m'.endpoints token q
      rw [last, hdelivered]
      exact this
    refine ⟨hre.sound h.sound, ?_, ?_, ?_, ?_, ?_, ?_, ?_⟩
    · intro j
      rw [hre.peer?]
      exact h.peers j
    · intro q
      rw [hre.routes]
      exact h.routes q
    · intro s hs
      rw [hlast]
      obtain hs | hs := List.mem_append.mp hs
      · have hle := h.seen s hs
        split
        · next ho =>
          rw [ho] at hle
          exact UInt64.le_of_lt (UInt64.lt_of_le_of_lt hle hlt)
        · exact hle
      · cases List.mem_singleton.mp hs
        rw [if_pos rfl]
        exact UInt64.le_refl _
    · intro q
      rw [hlast]
      by_cases hq : q = token.origin
      · rw [if_pos hq]
        exact .inr ⟨⟨ep, payload, token, past⟩, List.mem_append_right _ List.mem_cons_self,
          hq.symm, rfl⟩
      · rw [if_neg hq]
        refine (h.reached q).imp_right ?_
        rintro ⟨s, hs, hsq⟩
        exact ⟨s, List.mem_append_left _ hs, hsq⟩
    · refine List.pairwise_append.mpr ⟨h.increasing, List.pairwise_singleton _ _, ?_⟩
      intro s hs t ht ho
      cases List.mem_singleton.mp ht
      have hle := h.seen s hs
      rw [ho] at hle
      exact UInt64.lt_of_le_of_lt hle hlt
    · intro j
      have hj := h.mem_recipients_iff hp payload token j
      have hnone : m.peer? j = none → j ∉ m.recipients p := by
        rw [h.sound.mem_recipients]
        rintro hj ⟨⟨q, hq, -⟩, -⟩
        rw [hj] at hq
        cases hq
      rw [hre.broadcasts fun hj => if_neg (hnone hj)]
      rw [sendings, List.filter_append, List.map_append, ← h.broadcasts j]
      show receivedBroadcasts j past ++ _ = _
      by_cases hmem : j ∈ m.recipients p
      · rw [if_pos hmem, List.filter_cons_of_pos (hj.mp hmem), ← List.append_assoc]
        rfl
      · rw [if_neg hmem, List.filter_cons_of_neg (mt hj.mpr hmem)]
        exact (List.append_nil _).symm
    · intro j
      rw [hre.unicasts fun _ => rfl]
      exact h.unicasts j

theorem unicast (h : Tracks m past) (ep : Nat) (target : PeerId) (payload : Bytes) :
    Tracks (m.unicast ep target payload).2
      (.unicast ep target payload (m.unicast ep target payload).1 :: past) := by
  obtain ⟨e, hu⟩ | ⟨p, r, m', hp, hr, hu, hdelivered, hre⟩ :=
    unicast_cases h.sound ep target payload
  · rw [hu]
    exact ⟨h.sound, h.peers, h.routes, h.seen, h.reached, h.increasing, h.broadcasts,
      h.unicasts⟩
  · rw [hu]
    refine ⟨hre.sound h.sound, ?_, ?_, ?_, ?_, h.increasing, ?_, ?_⟩
    · intro j
      rw [hre.peer?]
      exact h.peers j
    · intro q
      rw [hre.routes]
      exact h.routes q
    · intro s hs
      rw [last, hdelivered]
      exact h.seen s hs
    · intro q
      rw [last, hdelivered]
      exact h.reached q
    · intro j
      rw [hre.broadcasts fun _ => rfl]
      exact h.broadcasts j
    · intro j
      have hj : Parcel.isFor j ⟨ep, target, payload, past⟩ ↔ j = r := by
        rw [Parcel.isFor, ← h.routes, hr, beq_iff_eq]
        exact ⟨fun he => (Option.some.inj he).symm, fun he => congrArg some he.symm⟩
      have hcontent : Parcel.content ⟨ep, target, payload, past⟩ = (some p, payload) := by
        rw [Parcel.content, ← h.peers, hp]
      have hnone : m.peer? j = none → j ≠ r := by
        rintro hnone rfl
        rw [h.sound.route target j hr] at hnone
        cases hnone
      rw [hre.unicasts fun hj => if_neg (hnone hj), parcels, List.filter_append]
      refine Eq.trans ?_ List.map_append.symm
      rw [← h.unicasts j]
      show (receivedUnicasts j past ++ _).map _ = _
      by_cases hjr : j = r
      · rw [if_pos hjr, List.filter_cons_of_pos (hj.mpr hjr), ← List.append_assoc,
          List.map_append, List.filter_nil, List.map_singleton, List.map_singleton, hcontent]
      · rw [if_neg hjr, List.filter_cons_of_neg (mt hj.mp hjr)]
        exact (List.append_nil _).symm

theorem receiveBroadcast (h : Tracks m past) (ep : Nat) :
    Tracks (m.receiveBroadcast ep).2 (.gotBroadcast ep (m.receiveBroadcast ep).1 :: past) := by
  obtain ⟨payload, m', hq, hg, hdelivered, hre⟩ | ⟨-, -, hg⟩ | ⟨-, -, hg⟩ :=
    m.receiveBroadcast_cases ep
  · rw [hg]
    refine ⟨hre.sound h.sound, ?_, ?_, ?_, ?_, h.increasing, ?_, ?_⟩
    · intro j
      rw [hre.peer?]
      exact h.peers j
    · intro q
      rw [hre.routes]
      exact h.routes q
    · intro s hs
      rw [last, hdelivered]
      exact h.seen s hs
    · intro q
      rw [last, hdelivered]
      exact h.reached q
    · intro j
      refine Eq.trans ?_ (h.broadcasts j)
      rw [receivedBroadcasts]
      by_cases hj : j = ep
      · rw [if_pos hj, hj, ← hq, List.append_assoc, List.singleton_append]
      · rw [hre.broadcasts (by simp), if_neg hj, if_neg hj, List.append_nil]
    · intro j
      rw [hre.unicasts fun _ => rfl]
      exact h.unicasts j
  · rw [hg]
    exact ⟨h.sound, h.peers, h.routes, h.seen, h.reached, h.increasing, h.broadcasts,
      h.unicasts⟩
  · rw [hg]
    exact ⟨h.sound, h.peers, h.routes, h.seen, h.reached, h.increasing, h.broadcasts,
      h.unicasts⟩

theorem receiveUnicast (h : Tracks m past) (ep : Nat) :
    Tracks (m.receiveUnicast ep).2 (.gotUnicast ep (m.receiveUnicast ep).1 :: past) := by
  obtain ⟨item, m', hq, hg, hdelivered, hre⟩ | ⟨-, -, hg⟩ | ⟨-, -, hg⟩ := m.receiveUnicast_cases ep
  · rw [hg]
    refine ⟨hre.sound h.sound, ?_, ?_, ?_, ?_, h.increasing, ?_, ?_⟩
    · intro j
      rw [hre.peer?]
      exact h.peers j
    · intro q
      rw [hre.routes]
      exact h.routes q
    · intro s hs
      rw [last, hdelivered]
      exact h.seen s hs
    · intro q
      rw [last, hdelivered]
      exact h.reached q
    · intro j
      rw [hre.broadcasts fun _ => rfl]
      exact h.broadcasts j
    · intro j
      refine Eq.trans ?_ (h.unicasts j)
      rw [receivedUnicasts]
      by_cases hj : j = ep
      · rw [if_pos hj, hj, ← hq, List.append_assoc, List.singleton_append]
      · rw [hre.unicasts (by simp), if_neg hj, if_neg hj, List.append_nil]
  · rw [hg]
    exact ⟨h.sound, h.peers, h.routes, h.seen, h.reached, h.increasing, h.broadcasts,
      h.unicasts⟩
  · rw [hg]
    exact ⟨h.sound, h.peers, h.routes, h.seen, h.reached, h.increasing, h.broadcasts,
      h.unicasts⟩

theorem perform (h : Tracks m past) (a : Act) :
    Tracks (a.perform m).2 ((a.perform m).1 :: past) := by
  cases a with
  | join p => exact h.join p
  | leave p => exact h.leave p
  | broadcast ep payload token => exact h.broadcast ep payload token
  | unicast ep target payload => exact h.unicast ep target payload
  | receiveBroadcast ep => exact h.receiveBroadcast ep
  | receiveUnicast ep => exact h.receiveUnicast ep

theorem runActs (h : Tracks m past) (acts : List Act) :
    Tracks (runActs acts m past).1 (runActs acts m past).2 := by
  induction acts generalizing m past with
  | nil => exact h
  | cons a acts ih => exact ih (h.perform a)

end Tracks

end PeerMesh.Mesh
