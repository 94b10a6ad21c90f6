import PeerMesh.Proofs.Wire.Val
import PeerMesh.Wire.Outcome

namespace PeerMesh

open Json (Written only?)

/-- What is written is a JSON text, and it is read as what it was written for, unless it nests
deeper than a text may. -/
def Restored {α : Type} (bytes : α → Bytes) (ofBytes? : Bytes → Option α) (a : α) : Prop :=
  ∃ w, Written.ofBytes? (bytes a) = some w ∧
    ofBytes? (bytes a) = if w.depth ≤ 127 then some a else none

theorem variant?_written (name : String) (j : Json) :
    variant? (Json.object [(name, j)]).written = some (name, j.written) := by
  simp [Json.written, Json.writtenMembers, variant?, Json.stringOfBody?_body]

theorem pairOf?_object {first second : String} (hne : first ≠ second) (a b : Json) :
    pairOf? first second (Json.object [(first, a), (second, b)]).written =
      some (a.written, b.written) := by
  simp [Json.written, Json.writtenMembers, pairOf?, Written.named?, Json.stringOfBody?_body, only?,
    hne, hne.symm]

namespace FailureReason

def Fits : FailureReason → Prop
  | badArgumentCount expected found => expected < UInt64.size ∧ found < UInt64.size
  | _ => True

theorem writable_json {r : FailureReason} (h : r.Fits) : r.json.Writable := by
  cases r with
  | badArgumentCount expected found =>
    exact ⟨⟨Json.writable_ofNat h.1, Json.writable_ofNat h.2, trivial⟩, trivial⟩
  | _ => exact ⟨trivial, trivial⟩

theorem depth_json_le (r : FailureReason) : r.json.depth ≤ 2 := by
  cases r <;> simp [json, Json.depth, Json.depthMembers]

theorem ofWritten?_text {name : String} (hname : name ≠ "bad-argument-count") (text : String) :
    ofWritten? (Json.object [(name, .string text)]).written = ofText? name text := by
  rw [ofWritten?, variant?_written]
  simp [hname, Json.read_string, Json.string?]

theorem ofWritten?_counts {expected found : Nat} (h : (badArgumentCount expected found).Fits) :
    ofWritten? (badArgumentCount expected found).json.written =
      some (badArgumentCount expected found) := by
  rw [json, ofWritten?, variant?_written]
  simp [pairOf?_object, ← Option.bind_assoc, Json.read_count h.1, Json.read_count h.2]

theorem ofWritten?_written {r : FailureReason} (h : r.Fits) :
    ofWritten? r.json.written = some r := by
  cases r with
  | badArgumentCount expected found => exact ofWritten?_counts h
  | operationFailed text | panicked text | methodNotFound text | notFound text
  | unknownMapper text =>
    exact ofWritten?_text (by decide) text

end FailureReason

namespace Outcome

/-- The value is one that can be written, and the counts of a reason are words of 64 bits. -/
def Storable : Outcome → Prop
  | .ok v => v.Canonical ∧ v.isFinite
  | .error r => r.Fits

theorem writable_json {o : Outcome} (h : Storable o) : (json o).Writable := by
  cases o with
  | ok v => exact ⟨Val.writable_json h.2, trivial⟩
  | error r => exact ⟨FailureReason.writable_json h, trivial⟩

theorem ofWritten?_written {o : Outcome} (h : Storable o) :
    ofWritten? (json o).written =
      if (json o).depth ≤ Written.depthLimit then some o else none := by
  cases o with
  | ok v =>
    have hdepth : (json (.ok v)).depth ≤ Written.depthLimit ↔
        v.json.depth ≤ Written.depthLimit - 1 := by
      simp only [json, Json.depth, Json.depthMembers, Nat.max_zero, Written.depthLimit]
      omega
    rw [json, ofWritten?, variant?_written, ← json]
    simp only [hdepth, Option.bind_eq_bind, Option.bind_some, if_pos,
      Json.read_written (Val.writable_json h.2)]
    by_cases hle : v.json.depth ≤ Written.depthLimit - 1 <;> simp [hle, Val.ofJson?_json h.1]
  | error r =>
    have hdepth : (json (.error r)).depth ≤ Written.depthLimit := by
      have hle := r.depth_json_le
      simp only [json, Json.depth, Json.depthMembers, Nat.max_zero, Written.depthLimit]
      omega
    rw [if_pos hdepth, json, ofWritten?, variant?_written]
    simp [FailureReason.ofWritten?_written h]

end Outcome

namespace Token

theorem writable_json (t : Token) : t.json.Writable :=
  ⟨trivial, Json.writable_ofNat t.counter.toNat_lt, trivial⟩

theorem ofWritten?_written (t : Token) : ofWritten? t.json.written = some t := by
  rw [json, ofWritten?, pairOf?_object (by decide)]
  simp [← Option.bind_assoc, Json.read_string, Json.string?, Json.read_count t.counter.toNat_lt]

end Token

/-- A reader that takes the text of each value for that value, if there is room for it. -/
theorem restored_of_written {α : Type} {j : Json} (hj : j.Writable) {bytes : α → Bytes}
    {ofBytes? : Bytes → Option α} {a : α} (hbytes : bytes a = j.bytes)
    (hread : ofBytes? j.bytes = if j.depth ≤ Written.depthLimit then some a else none) :
    Restored bytes ofBytes? a :=
  ⟨j.written, by rw [hbytes, Json.ofBytes?_written hj],
    by rw [hbytes, hread, Json.depth_written]; rfl⟩

theorem Val.restored {v : Val} (hc : v.Canonical) (hf : v.isFinite) :
    Restored Val.bytes Val.ofBytes? v := by
  refine restored_of_written (Val.writable_json hf) rfl ?_
  rw [Val.ofBytes?, Json.ofBytes?_bytes (Val.writable_json hf)]
  by_cases hle : v.json.depth ≤ Written.depthLimit <;> simp [hle, Val.ofJson?_json hc]

theorem Outcome.restored {o : Outcome} (h : Storable o) :
    Restored Outcome.bytes Outcome.ofBytes? o := by
  refine restored_of_written (writable_json h) rfl ?_
  rw [Outcome.ofBytes?, Json.ofBytes?_written (writable_json h)]
  simp [ofWritten?_written h]

/-- What is stored comes back from its text. Only values, and the outcomes that carry one, can nest
deeper than a text may. -/
theorem results_restored :
    (∀ o : Outcome, o.Storable → Restored Outcome.bytes Outcome.ofBytes? o) ∧
    (∀ v : Val, v.Canonical → v.isFinite → Restored Val.bytes Val.ofBytes? v) ∧
    (∀ r : FailureReason, r.Fits → FailureReason.ofBytes? r.bytes = some r) ∧
    (∀ shape : ResponseShape, ResponseShape.ofBytes? shape.bytes = some shape) ∧
    (∀ t : Token, Token.ofBytes? t.bytes = some t) ∧
    (∀ j : JobId, JobId.ofBytes? j.bytes = some j) ∧
    (∀ p : PeerId, PeerId.ofBytes? p.bytes = some p) := by
  refine ⟨fun o => Outcome.restored, fun v => Val.restored, fun r hr => ?_, fun shape => ?_,
    fun t => ?_, fun j => ?_, fun p => ?_⟩
  · rw [FailureReason.ofBytes?, FailureReason.bytes,
      Json.ofBytes?_written (FailureReason.writable_json hr)]
    simp [FailureReason.ofWritten?_written hr]
  · rw [ResponseShape.ofBytes?, ResponseShape.bytes, Json.ofBytes?_string]
    cases shape <;> rfl
  · rw [Token.ofBytes?, Token.bytes, Json.ofBytes?_written t.writable_json]
    simp [Token.ofWritten?_written t]
  · simp [JobId.ofBytes?, JobId.bytes, Json.ofBytes?_string, Json.string?]
  · simp [PeerId.ofBytes?, PeerId.bytes, Json.ofBytes?_string, Json.string?]

def Outcome.mixed : Outcome :=
  .ok (.list [.f64 ⟨0x8000000000000000⟩, .s64 Int64.minValue, .map [("\"", .string "a\n")]])

theorem results_restored_mixed :
    Outcome.Storable .mixed ∧ (Outcome.json .mixed).depth = 6 ∧
    Outcome.ofBytes? (Outcome.bytes .mixed) = some .mixed ∧
    (let r : FailureReason := .badArgumentCount (2 ^ 64 - 1) 0
     FailureReason.ofBytes? r.bytes = some r) := by
  obtain ⟨houtcome, -, hreason, -⟩ := results_restored
  have hs : Outcome.Storable .mixed := by
    refine ⟨?_, by decide⟩
    simp [Val.Canonical, Val.allCanonical, Val.fieldsCanonical, Fields.Ascending]
  have hdepth : (Outcome.json .mixed).depth = 6 := by decide
  obtain ⟨w, hw, hread⟩ := houtcome .mixed hs
  have hw' := Json.ofBytes?_written (Outcome.writable_json hs)
  have he : w.depth = 6 := by
    rw [Outcome.bytes, hw', Option.some.injEq] at hw
    rw [← hw, Json.depth_written, hdepth]
  exact ⟨hs, hdepth, by rw [hread, he]; rfl, hreason _ ⟨by decide, by decide⟩⟩

end PeerMesh
