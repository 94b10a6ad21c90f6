import PeerMesh.Basic

namespace PeerMesh

inductive TransportError
  | connectionLost (detail : String)
  | unknownPeer (peer : PeerId)
  | payloadTooLarge
  | staleToken (token : Token)
  | io (detail : String)
  deriving DecidableEq

def TransportError.message : TransportError → String
  | connectionLost detail => "Connection lost: " ++ detail
  | unknownPeer peer => "Unknown peer: " ++ peer.text
  | payloadTooLarge => "Payload too large for transport"
  | staleToken token =>
    "Stale causal token " ++ toString token.counter.toNat ++ " from " ++ token.origin.text
  | io detail => "I/O error: " ++ detail

/-- The sending side of a peer's two channels, as functions on the state `σ` of what is behind
them. -/
structure Link (σ : Type) where
  broadcast : Bytes → Token → σ → Except TransportError Unit × σ
  unicast : Bytes → PeerId → σ → Except TransportError Unit × σ

inductive Arrival (α : Type)
  | item (a : α)
  | closed
  | failed (e : TransportError)

end PeerMesh
