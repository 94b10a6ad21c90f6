import PeerMesh.Interpreter
import PeerMesh.Proofs.Clock

namespace PeerMesh

structure Attempt where
  payload : Bytes
  token : Token
  result : Except TransportError Unit

def Attempt.accepted (a : Attempt) : Bool :=
  a.result.isOk

/-- The same link, which also records every attempt to broadcast. -/
def Link.recorded {σ : Type} (link : Link σ) : Link (σ × List Attempt) where
  broadcast payload token w :=
    let (result, v) := link.broadcast payload token w.1
    (result, v, w.2 ++ [⟨payload, token, result⟩])
  unicast payload target w :=
    let (result, v) := link.unicast payload target w.1
    (result, v, w.2)

namespace Link

variable {σ : Type} {link : Link σ} {w v : σ × List Attempt} {payload : Bytes}
  {r : Except TransportError Unit}

theorem log_of_broadcast {token : Token} (h : link.recorded.broadcast payload token w = (r, v)) :
    v.2 = w.2 ++ [⟨payload, token, r⟩] := by
  cases h
  rfl

theorem log_of_unicast {target : PeerId} (h : link.recorded.unicast payload target w = (r, v)) :
    v.2 = w.2 := by
  cases h
  rfl

end Link

/-- From the clock and the attempts of the start one gets to others by attempts that carry the next
token of the clock, which moves on with those that are accepted and only with them. -/
inductive Advances (start : VersionVector × List Attempt) : VersionVector → List Attempt → Prop
  | here : Advances start start.1 start.2
  | accepted {c : VersionVector} {log : List Attempt} (h : Advances start c log)
    (payload : Bytes) : Advances start (c.commit c.peek) (log ++ [⟨payload, c.peek, .ok ()⟩])
  | refused {c : VersionVector} {log : List Attempt} (h : Advances start c log)
    (payload : Bytes) (e : TransportError) :
    Advances start c (log ++ [⟨payload, c.peek, .error e⟩])

namespace Advances

variable {start : VersionVector × List Attempt} {c d : VersionVector} {log more : List Attempt}

theorem trans (h : Advances start c log) (h' : Advances (c, log) d more) :
    Advances start d more := by
  induction h' with
  | here => exact h
  | accepted _ payload ih => exact ih.accepted payload
  | refused _ payload e ih => exact ih.refused payload e

end Advances

def acceptedCount (log : List Attempt) : Nat :=
  log.countP Attempt.accepted

theorem acceptedCount_append_accepted (log : List Attempt) (payload : Bytes) (token : Token) :
    acceptedCount (log ++ [⟨payload, token, .ok ()⟩]) = acceptedCount log + 1 := by
  rw [acceptedCount, List.countP_append]
  rfl

theorem acceptedCount_append_refused (log : List Attempt) (payload : Bytes) (token : Token)
    (e : TransportError) :
    acceptedCount (log ++ [⟨payload, token, .error e⟩]) = acceptedCount log := by
  rw [acceptedCount, List.countP_append]
  rfl

def Token.after (peer : PeerId) (n : Nat) : Token :=
  ⟨peer, UInt64.ofNat (n + 1)⟩

/-- The clock of `peer` has counted the accepted attempts, each attempt carries the token that
follows those accepted before it, and so the accepted ones carry the first tokens in order. -/
structure Numbered (peer : PeerId) (c : VersionVector) (log : List Attempt) : Prop where
  owner : c.owner = peer
  entry : (c.get peer).toNat = acceptedCount log
  tokens : ∀ before a after, log = before ++ a :: after →
    a.token = Token.after peer (acceptedCount before)
  accepted : (log.filter Attempt.accepted).map Attempt.token =
    (List.range (acceptedCount log)).map (Token.after peer)

namespace Numbered

variable {peer : PeerId} {c : VersionVector} {log : List Attempt}

theorem start (peer : PeerId) : Numbered peer (.ofOwner peer) [] where
  owner := rfl
  entry := rfl
  tokens before a after h := by simp at h
  accepted := rfl

theorem peek (h : Numbered peer c log) : c.peek = Token.after peer (acceptedCount log) := by
  have hcounter : c.get peer + 1 = UInt64.ofNat (acceptedCount log + 1) := by
    rw [UInt64.ofNat_add, ← h.entry, UInt64.ofNat_toNat]
    rfl
  rw [VersionVector.peek, h.owner, hcounter, Token.after]

theorem tokens_append (h : Numbered peer c log) (payload : Bytes) (r : Except TransportError Unit)
    {before after : List Attempt} {a : Attempt}
    (ha : log ++ [⟨payload, c.peek, r⟩] = before ++ a :: after) :
    a.token = Token.after peer (acceptedCount before) := by
  obtain rfl | ⟨init, b, rfl⟩ := List.eq_nil_or_concat after
  · obtain ⟨rfl, hlast⟩ := List.append_inj' ha rfl
    cases hlast
    exact h.peek
  · rw [List.concat_eq_append, ← List.cons_append, ← List.append_assoc] at ha
    obtain ⟨hlog, -⟩ := List.append_inj' ha rfl
    exact h.tokens before a init hlog

theorem accepted_append (h : Numbered peer c log) (payload : Bytes)
    (hn : acceptedCount log + 1 < 2 ^ 64) :
    Numbered peer (c.commit c.peek) (log ++ [⟨payload, c.peek, .ok ()⟩]) where
  owner := h.owner
  entry := by
    have hentry : (c.get c.owner).toNat = acceptedCount log := h.owner ▸ h.entry
    rw [acceptedCount_append_accepted, ← hentry, ← h.owner,
      VersionVector.get_commit_peek c (by omega)]
  tokens before a after ha := h.tokens_append payload _ ha
  accepted := by
    rw [acceptedCount_append_accepted, List.filter_append, List.map_append, h.accepted,
      List.range_succ, List.map_append, List.map_singleton, ← h.peek]
    rfl

theorem refused_append (h : Numbered peer c log) (payload : Bytes) (e : TransportError) :
    Numbered peer c (log ++ [⟨payload, c.peek, .error e⟩]) where
  owner := h.owner
  entry := by rw [acceptedCount_append_refused, h.entry]
  tokens before a after ha := h.tokens_append payload _ ha
  accepted := by
    rw [acceptedCount_append_refused, List.filter_append, List.map_append, h.accepted]
    exact List.append_nil _

/-- The token of a refused attempt is used again. -/
theorem token_of_refused (h : Numbered peer c log) {before after : List Attempt} {a b : Attempt}
    (hlog : log = before ++ a :: b :: after) (ha : a.accepted = false) : b.token = a.token := by
  have hcount : acceptedCount (before ++ [a]) = acceptedCount before := by
    rw [acceptedCount, List.countP_append, List.countP_singleton, ha]
    rfl
  rw [h.tokens before a (b :: after) hlog,
    h.tokens (before ++ [a]) b after (by rw [hlog, List.append_assoc, List.singleton_append]),
    hcount]

end Numbered

theorem Advances.numbered {peer : PeerId} {c : VersionVector} {log : List Attempt}
    (h : Advances (.ofOwner peer, []) c log) (hn : acceptedCount log < 2 ^ 64 - 1) :
    Numbered peer c log := by
  induction h with
  | here => exact .start peer
  | accepted _ payload ih =>
    rw [acceptedCount_append_accepted] at hn
    exact (ih (by omega)).accepted_append payload (by omega)
  | refused _ payload e ih =>
    rw [acceptedCount_append_refused] at hn
    exact (ih hn).refused_append payload e

end PeerMesh
