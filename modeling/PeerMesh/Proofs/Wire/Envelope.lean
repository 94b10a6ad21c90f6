import PeerMesh.Proofs.Wire.Outcome
import PeerMesh.Wire.Envelope

namespace PeerMesh

open Json (Written only?)

theorem Val.allCanonical_iff (vs : List Val) : allCanonical vs ↔ ∀ v ∈ vs, v.Canonical := by
  induction vs with
  | nil => simp [allCanonical]
  | cons v vs ih => rw [allCanonical, ih, List.forall_mem_cons]

theorem Val.fieldsCanonical_iff (fs : List (String × Val)) :
    fieldsCanonical fs ↔ ∀ f ∈ fs, f.2.Canonical := by
  induction fs with
  | nil => simp [fieldsCanonical]
  | cons f fs ih => rw [fieldsCanonical, ih, List.forall_mem_cons]

namespace Command

/-- The float `x` stands somewhere in the arguments or the value map of a command. -/
def Holds (x : Binary64) : Command → Prop
  | rpc _ args => ∃ v ∈ args, v.Holds x
  | custom .. => False
  | customResponse _ value => ∃ f ∈ value, f.2.Holds x

/-- How many JSON containers are nested in the envelope of a command: its own, that of the command,
and that of the arguments or the value map. -/
def nesting : Command → Nat
  | rpc _ args => Val.nestingItems args + 3
  | custom .. => 2
  | customResponse _ value => Val.nestingFields value + 3

theorem isFinite_eq_false_iff (c : Command) :
    c.isFinite = false ↔ ∃ x : Binary64, c.Holds x ∧ x.NonFinite := by
  cases c with
  | rpc name args =>
    rw [isFinite, Val.all_isFinite, Val.allFinite_eq_false_iff]
    constructor
    · rintro ⟨v, hv, x, hx, h⟩
      exact ⟨x, ⟨v, hv, hx⟩, h⟩
    · rintro ⟨x, ⟨v, hv, hx⟩, h⟩
      exact ⟨v, hv, x, hx, h⟩
  | custom job key mapper shape => simp [isFinite, Holds]
  | customResponse job value =>
    rw [isFinite, Val.all_isFinite_fields, Val.fieldsFinite_eq_false_iff]
    constructor
    · rintro ⟨f, hf, x, hx, h⟩
      exact ⟨x, ⟨f, hf, hx⟩, h⟩
    · rintro ⟨x, ⟨f, hf, hx⟩, h⟩
      exact ⟨f, hf, x, hx, h⟩

theorem writable_json {c : Command} (h : c.isFinite) : c.json.Writable := by
  cases c with
  | rpc name args =>
    rw [isFinite, Val.all_isFinite] at h
    exact ⟨trivial, trivial, Val.writable_jsonItems h, trivial⟩
  | custom job key mapper shape => exact ⟨trivial, trivial, trivial, trivial, trivial, trivial⟩
  | customResponse job value =>
    rw [isFinite, Val.all_isFinite_fields] at h
    exact ⟨trivial, trivial, Val.writable_jsonFields h, trivial⟩

theorem depth_json (c : Command) : c.json.depth + 1 = c.nesting := by
  cases c with
  | rpc name args =>
    simp [json, fields, Json.depth, Json.depthMembers, Val.depth_jsonItems, nesting]
  | custom job key mapper shape =>
    simp [json, fields, Json.depth, Json.depthMembers, nesting]
  | customResponse job value =>
    simp [json, fields, Json.depth, Json.depthMembers, Val.depth_jsonFields, nesting]

theorem ofJson?_lastWins_rpc {name : String} {args : List Val} (h : (rpc name args).Canonical) :
    ofJson? (rpc name args).json.lastWins = some (rpc name args) := by
  have hargs := (Val.allCanonical_iff args).mpr h
  simp [json, kind, CommandKind.name, fields, Json.lastWins, Json.lastWinsMembers,
    Val.lastWins_jsonItems hargs, ofJson?, Json.only?_ofList, Fields.lookup_cons_eq_ite,
    Json.string?, CommandKind.ofName?, ofMembers?, rpcOf?, Json.array?,
    Val.itemsOfJson?_jsonItems hargs]

theorem ofJson?_name (shape : ResponseShape) :
    ResponseShape.ofJson? true (.string shape.name) = some shape := by
  cases shape <;> rfl

theorem ofJson?_lastWins_custom (job : JobId) (key mapper : String) (shape : ResponseShape) :
    ofJson? (custom job key mapper shape).json.lastWins = some (custom job key mapper shape) := by
  simp [json, kind, CommandKind.name, fields, Json.lastWins, Json.lastWinsMembers, ofJson?,
    Json.only?_ofList, Json.any_ofList, Fields.lookup_cons_eq_ite, Json.string?,
    CommandKind.ofName?, ofMembers?, customOf?, ofJson?_name]

theorem ofJson?_lastWins_response {job : JobId} {value : Fields Val}
    (h : (customResponse job value).Canonical) :
    ofJson? (customResponse job value).json.lastWins = some (customResponse job value) := by
  have hfields := (Val.fieldsCanonical_iff value).mpr h.2
  have hlast := Fields.ofList_of_ascending (Val.ascending_jsonFields h.1)
  simp [json, kind, CommandKind.name, fields, Json.lastWins, Json.lastWinsMembers,
    Val.lastWins_jsonFields hfields, hlast, ofJson?, Json.only?_ofList, Fields.lookup_cons_eq_ite,
    Json.string?, CommandKind.ofName?, ofMembers?, responseOf?, Json.object?,
    Val.membersOfJson?_jsonFields hfields, Fields.ofList_of_ascending h.1]

theorem ofJson?_lastWins_json {c : Command} (h : c.Canonical) :
    ofJson? c.json.lastWins = some c := by
  cases c with
  | rpc name args => exact ofJson?_lastWins_rpc h
  | custom job key mapper shape => exact ofJson?_lastWins_custom job key mapper shape
  | customResponse job value => exact ofJson?_lastWins_response h

end Command

namespace Envelope

theorem writable_json {e : Envelope} (h : e.command.isFinite) : e.json.Writable := by
  refine ⟨⟨?_, ?_⟩, Command.writable_json h, trivial⟩
  · omega
  · have := e.version.toNat_lt
    simp only [UInt64.size]
    omega

theorem depth_json (e : Envelope) : e.json.depth = e.command.nesting := by
  rw [← Command.depth_json]
  simp [json, Json.depth, Json.depthMembers]

theorem pairOf?_written (e : Envelope) :
    pairOf? "version" "command" e.json.written =
      some ((Json.number (.int e.version.toNat)).written, e.command.json.written) :=
  pairOf?_object (by decide) _ _

theorem below?_version (v : UInt16) :
    (Json.number (.int v.toNat)).below? UInt16.size = some v.toNat :=
  Json.below?_ofNat v.toNat_lt

theorem openEnvelope?_bytes {e : Envelope} (h : e.command.isFinite) :
    openEnvelope? e.bytes =
      if e.command.nesting ≤ Written.depthLimit then some (e.version, e.command.json)
      else none := by
  have hbytes : e.bytes = e.json.bytes := rfl
  have hversion : (Json.number (.int e.version.toNat)).written.read 0 =
      some (.number (.int e.version.toNat)) := by
    rw [Json.read_written (writable_json h).1]
    rfl
  have hdepth : e.command.json.depth ≤ Written.depthLimit - 1 ↔
      e.command.nesting ≤ Written.depthLimit := by
    rw [← Command.depth_json]
    simp only [Written.depthLimit]
    omega
  rw [openEnvelope?, hbytes, Json.ofBytes?_written (writable_json h), Option.bind_eq_bind,
    Option.bind_some, pairOf?_written, Option.bind_eq_bind, Option.bind_some]
  dsimp only
  rw [hversion, Option.bind_eq_bind, Option.bind_some, below?_version, Option.bind_eq_bind,
    Option.bind_some, Json.read_written (Command.writable_json h)]
  by_cases hlimit : e.command.nesting ≤ Written.depthLimit
  · rw [if_pos hlimit, if_pos (hdepth.mpr hlimit), UInt16.ofNat_toNat]
    rfl
  · rw [if_neg hlimit, if_neg (mt hdepth.mp hlimit)]
    rfl

end Envelope

theorem decode_bytes_of_le {c : Command} (hf : c.isFinite) (hc : c.Canonical)
    (h : c.nesting ≤ Written.depthLimit) :
    decode (Envelope.bytes ⟨protocolVersion, c⟩) = .ok c := by
  rw [decode, Envelope.openEnvelope?_bytes hf, if_pos h]
  simp [Command.ofJson?_lastWins_json hc]

theorem decode_bytes_of_lt {c : Command} (hf : c.isFinite) (h : Written.depthLimit < c.nesting) :
    decode (Envelope.bytes ⟨protocolVersion, c⟩) = .error .notAnEnvelope := by
  rw [decode, Envelope.openEnvelope?_bytes hf, if_neg (Nat.not_le.mpr h)]

theorem encode_of_isFinite {c : Command} (h : c.isFinite) :
    encode c = .ok (Envelope.bytes ⟨protocolVersion, c⟩) := by
  rw [encode, if_pos h]

/-- A command fails to encode exactly if some float inside is not finite. Every other one is
decoded as it was, unless its envelope nests too deep to be opened. -/
theorem encode_decode (c : Command) (h : c.Canonical) :
    ((∃ e, encode c = .error e) ↔ ∃ x : Binary64, c.Holds x ∧ x.NonFinite) ∧
    (∀ e, encode c = .error e → ∃ detail, e = .serialization detail) ∧
    ((¬∃ x : Binary64, c.Holds x ∧ x.NonFinite) →
      ∃ bs, encode c = .ok bs ∧ (∃ w, Written.ofBytes? bs = some w ∧ w.depth = c.nesting) ∧
        (c.nesting ≤ 127 → decode bs = .ok c) ∧
        (127 < c.nesting → ∃ stage detail, decode bs = .error (.malformed stage detail))) := by
  rw [← Command.isFinite_eq_false_iff]
  cases hf : c.isFinite with
  | false =>
    have he : encode c =
        .error (.serialization (c.kind.name ++ " command carries a non-finite float")) := by
      rw [encode, hf, if_neg Bool.false_ne_true]
    refine ⟨⟨fun _ => rfl, fun _ => ⟨_, he⟩⟩, ?_, fun hn => absurd rfl hn⟩
    intro e h'
    rw [he] at h'
    cases h'
    exact ⟨_, rfl⟩
  | true =>
    have he := encode_of_isFinite hf
    refine ⟨⟨fun ⟨e, h'⟩ => ?_, fun h' => absurd h' (by simp)⟩, fun e h' => ?_, fun _ => ?_⟩
    · rw [he] at h'
      cases h'
    · rw [he] at h'
      cases h'
    · have hopen := Json.ofBytes?_written (Envelope.writable_json (e := ⟨protocolVersion, c⟩) hf)
      refine ⟨_, he, ⟨_, hopen, ?_⟩, decode_bytes_of_le hf h, fun hd => ?_⟩
      · rw [Json.depth_written, Envelope.depth_json]
      · exact ⟨_, _, decode_bytes_of_lt hf hd⟩

def Command.negativeZero : Command :=
  .customResponse ⟨"a-1"⟩
    [("jobId", .string "a-1"), ("key", .list [.f64 ⟨0x8000000000000000⟩, .map [("", .unit)]])]

theorem encode_decode_negativeZero :
    Command.negativeZero.Canonical ∧ Command.negativeZero.nesting = 7 ∧
      ∃ bs, encode .negativeZero = .ok bs ∧ decode bs = .ok .negativeZero := by
  have hc : Command.negativeZero.Canonical := by
    refine ⟨?_, ?_⟩
    · have hlt : "jobId" < "key" := by decide
      exact List.pairwise_pair.mpr hlt
    · simp [Val.Canonical, Val.allCanonical, Val.fieldsCanonical, Fields.Ascending]
  have hf : ¬∃ x : Binary64, Command.negativeZero.Holds x ∧ x.NonFinite := by
    rw [← Command.isFinite_eq_false_iff]
    decide
  obtain ⟨-, -, hok⟩ := encode_decode .negativeZero hc
  obtain ⟨bs, he, -, hd, -⟩ := hok hf
  exact ⟨hc, by decide, bs, he, hd (by decide)⟩

end PeerMesh
