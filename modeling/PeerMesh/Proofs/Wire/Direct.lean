import PeerMesh.Proofs.Wire.Grammar

namespace PeerMesh

open Json (Written)

namespace Envelope

theorem ofBytes?_eq_some_iff {bs : Bytes} {e : Envelope} :
    ofBytes? bs = some e ↔
      ∃ j, openEnvelope? bs = some (e.version, j) ∧ Command.ofJson? j = some e.command := by
  simp only [ofBytes?, Option.bind_eq_bind, Option.bind_eq_some_iff, Option.pure_def,
    Option.some.injEq, Prod.exists]
  constructor
  · rintro ⟨v, j, hopen, c, hc, rfl⟩
    exact ⟨j, hopen, hc⟩
  · rintro ⟨j, hopen, hc⟩
    exact ⟨_, j, hopen, _, hc, rfl⟩

end Envelope

/-- What is read at once is what decoding gives, or refuses for its version alone. What is decoded
is read at once if no name repeats in the command. Encoding gives the envelope as it is written at
once. -/
theorem decode_direct (bs : Bytes) :
    (∀ e, Envelope.ofBytes? bs = some e →
      (e.version = 1 → decode bs = .ok e.command) ∧
      (e.version ≠ 1 → decode bs = .error (.unsupportedVersion 1 e.version))) ∧
    (∀ c v j, decode bs = .ok c → openEnvelope? bs = some (v, j) → j.Distinct →
      Envelope.ofBytes? bs = some ⟨1, c⟩) ∧
    ∀ c : Command, (¬∃ x : Binary64, c.Holds x ∧ x.NonFinite) →
      encode c = .ok (Envelope.bytes ⟨protocolVersion, c⟩) := by
  refine ⟨fun e he => ?_, fun c v j hc hopen hd => ?_, fun c hf => ?_⟩
  · obtain ⟨j, hopen, hread⟩ := Envelope.ofBytes?_eq_some_iff.mp he
    refine ⟨fun hv => ?_, fun hv => ?_⟩
    · rw [hv] at hopen
      exact decode_eq_ok_iff.mpr ⟨j, hopen, Json.denotesCommand_of_ofJson? hread⟩
    · rw [decode, hopen]
      exact if_pos hv
  · obtain ⟨i, hi, hc⟩ := decode_eq_ok_iff.mp hc
    rw [hopen] at hi
    cases hi
    exact Envelope.ofBytes?_eq_some_iff.mpr ⟨j, hopen, Json.ofJson?_of_denotesCommand hc hd⟩
  · rw [← Command.isFinite_eq_false_iff, Bool.not_eq_false] at hf
    exact encode_of_isFinite hf

def mixedLayout : Bytes :=
  utf8 ("[1,\x7b\"value\":\x7b\"a\":\x7b\"List\":" ++
    "[\x7b\"S64\":7\x7d,\x7b\"Unit\":\x7b\x7d\x7d]\x7d\x7d," ++
    "\"kind\":\"custom-response\",\"job\":\"j\"\x7d]")

theorem decode_direct_mixed :
    decode mixedLayout = .ok (.customResponse ⟨"j"⟩ [("a", .list [.s64 7, .unit])]) := by
  have he : Envelope.ofBytes? mixedLayout =
      some ⟨1, .customResponse ⟨"j"⟩ [("a", .list [.s64 7, .unit])]⟩ := by
    cbv
  exact ((decode_direct mixedLayout).1 _ he).1 rfl

end PeerMesh
