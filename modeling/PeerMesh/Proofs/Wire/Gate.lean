import Mathlib
import PeerMesh.Proofs.Meaning
import PeerMesh.Proofs.Repeats
import PeerMesh.Proofs.Wire.Envelope

namespace PeerMesh

open Json (Written only? stringOfBody?)

section Pair

variable {α : Type} {first second : String} {before between after : List (String × α)}

theorem Json.only?_pair (x y : α) (hne : first ≠ second)
    (hb : ∀ m ∈ before, m.1 ≠ first ∧ m.1 ≠ second)
    (hm : ∀ m ∈ between, m.1 ≠ first ∧ m.1 ≠ second)
    (ha : ∀ m ∈ after, m.1 ≠ first ∧ m.1 ≠ second) :
    only? first (before ++ (first, x) :: (between ++ (second, y) :: after)) = some x ∧
      only? second (before ++ (first, x) :: (between ++ (second, y) :: after)) = some y := by
  constructor
  · refine only?_append_cons x (fun m h => (hb m h).1) fun m h => ?_
    obtain h | h | h : m ∈ between ∨ m = (second, y) ∨ m ∈ after := by simpa using h
    · exact (hm m h).1
    · exact h ▸ hne.symm
    · exact (ha m h).1
  · have hfront : ∀ m ∈ before ++ (first, x) :: between, m.1 ≠ second := by
      intro m h
      obtain h | h | h : m ∈ before ∨ m = (first, x) ∨ m ∈ between := by simpa using h
      · exact (hb m h).2
      · exact h ▸ hne
      · exact (hm m h).2
    have hy := only?_append_cons y hfront fun m h => (ha m h).2
    rwa [List.append_assoc, List.cons_append] at hy

end Pair

theorem Json.Written.named?_append {ms ns : List (Bytes × Written)}
    {xs ys : List (String × Written)} (hms : named? ms = some xs) (hns : named? ns = some ys) :
    named? (ms ++ ns) = some (xs ++ ys) := by
  induction ms generalizing xs with
  | nil =>
    cases hms
    exact hns
  | cons m ms ih =>
    rw [named?] at hms
    split at hms
    next hname hms =>
      cases hms
      rw [List.cons_append, named?, hname, ih hms, List.cons_append]
    next => cases hms

theorem Json.Written.named?_cons {name : Bytes} {s : String} {w : Written}
    {ms : List (Bytes × Written)} {xs : List (String × Written)}
    (hname : stringOfBody? name = some s) (hms : named? ms = some xs) :
    named? ((name, w) :: ms) = some ((s, w) :: xs) := by
  rw [named?, hname, hms]

/-- Members whose names, however they are spelled, are not those of the fields of an envelope. Their
values are arbitrary, and names may repeat. -/
def Foreign (members : List (Bytes × Written)) : Prop :=
  ∀ m ∈ members, ∃ s, stringOfBody? m.1 = some s ∧ s ≠ "version" ∧ s ≠ "command"

def writtenVersion (v : UInt16) : Written :=
  .scalar (.number (.ofInt v.toNat))

/-- The members of an envelope of version `v` with the command `w`: each of the two fields once, in
either order and under any spelling of its name, among foreign members. -/
inductive Encloses (v : UInt16) (w : Written) : List (Bytes × Written) → Prop
  | versionFirst {version command : Bytes} {before between after : List (Bytes × Written)}
    (hv : stringOfBody? version = some "version") (hc : stringOfBody? command = some "command")
    (hb : Foreign before) (hm : Foreign between) (ha : Foreign after) :
    Encloses v w
      (before ++ (version, writtenVersion v) :: (between ++ (command, w) :: after))
  | commandFirst {version command : Bytes} {before between after : List (Bytes × Written)}
    (hv : stringOfBody? version = some "version") (hc : stringOfBody? command = some "command")
    (hb : Foreign before) (hm : Foreign between) (ha : Foreign after) :
    Encloses v w
      (before ++ (command, w) :: (between ++ (version, writtenVersion v) :: after))

theorem Foreign.named {members : List (Bytes × Written)} (h : Foreign members) :
    ∃ xs, Written.named? members = some xs ∧ ∀ x ∈ xs, x.1 ≠ "version" ∧ x.1 ≠ "command" := by
  induction members with
  | nil => exact ⟨[], rfl, List.forall_mem_nil _⟩
  | cons m members ih =>
    obtain ⟨⟨s, hs, hne⟩, h⟩ := List.forall_mem_cons.mp h
    obtain ⟨xs, hxs, hnames⟩ := ih h
    exact ⟨_, Written.named?_cons hs hxs, List.forall_mem_cons.mpr ⟨hne, hnames⟩⟩

variable {v : UInt16} {w : Written} {members : List (Bytes × Written)}

theorem Encloses.pairOf?_eq (h : Encloses v w members) :
    pairOf? "version" "command" (.object members) = some (writtenVersion v, w) := by
  have hne : "version" ≠ "command" := by decide
  rw [pairOf?]
  cases h with
  | versionFirst hv hc hb hm ha =>
    obtain ⟨bs, hbs, hbn⟩ := hb.named
    obtain ⟨ms, hms, hmn⟩ := hm.named
    obtain ⟨as, has, han⟩ := ha.named
    have hnamed := Written.named?_append hbs (Written.named?_cons (w := writtenVersion v) hv
      (Written.named?_append hms (Written.named?_cons (w := w) hc has)))
    obtain ⟨hversion, hcommand⟩ := Json.only?_pair (writtenVersion v) w hne hbn hmn han
    simp only [hnamed, hversion, hcommand, Option.bind_eq_bind, Option.bind_some, Option.pure_def]
  | commandFirst hv hc hb hm ha =>
    obtain ⟨bs, hbs, hbn⟩ := hb.named
    obtain ⟨ms, hms, hmn⟩ := hm.named
    obtain ⟨as, has, han⟩ := ha.named
    have hnamed := Written.named?_append hbs (Written.named?_cons (w := w) hc
      (Written.named?_append hms (Written.named?_cons (w := writtenVersion v) hv has)))
    obtain ⟨hcommand, hversion⟩ := Json.only?_pair w (writtenVersion v) hne.symm
      (fun x hx => (hbn x hx).symm) (fun x hx => (hmn x hx).symm) fun x hx => (han x hx).symm
    simp only [hnamed, hversion, hcommand, Option.bind_eq_bind, Option.bind_some, Option.pure_def]

theorem read_writtenVersion (v : UInt16) :
    (writtenVersion v).read 0 = some (.number (.int v.toNat)) := by
  have hw : (Json.number (.int v.toNat)).Writable := by
    have := v.toNat_lt
    constructor
    · omega
    · simp only [UInt64.size]
      omega
  exact Json.read_written hw 0

theorem Encloses.openEnvelope?_eq (h : Encloses v w members) {bs : Bytes}
    (hbs : (Written.object members).Text bs) {j : Json} (hj : w.read 126 = some j) :
    openEnvelope? bs = some (v, j) := by
  rw [openEnvelope?, Written.ofBytes?_eq_some_iff.mpr hbs, Option.bind_eq_bind, Option.bind_some,
    h.pairOf?_eq, Option.bind_eq_bind, Option.bind_some]
  dsimp only
  rw [read_writtenVersion, Option.bind_eq_bind, Option.bind_some, Envelope.below?_version,
    Option.bind_eq_bind, Option.bind_some, Written.depthLimit, hj, UInt16.ofNat_toNat]
  rfl

/-- The compact envelope of version 1 with nothing but the two fields. -/
def bareEnvelope (j : Json) : Bytes :=
  (Json.object [("version", .number (.int 1)), ("command", j)]).bytes

theorem openEnvelope?_bareEnvelope {j : Json} (hw : j.Writable) (hd : j.depth ≤ 126) :
    openEnvelope? (bareEnvelope j) = some (1, j) := by
  have hobject : (Json.object [("version", .number (.int 1)), ("command", j)]).Writable := by
    refine ⟨⟨by decide, by decide⟩, hw, trivial⟩
  have hnil : Foreign [] := List.forall_mem_nil _
  have henv : Encloses 1 j.written
      ([] ++ (Json.body "version", writtenVersion 1) ::
        ([] ++ (Json.body "command", j.written) :: [])) :=
    .versionFirst (Json.stringOfBody?_body _) (Json.stringOfBody?_body _) hnil hnil hnil
  refine henv.openEnvelope?_eq (Written.ofBytes?_eq_some_iff.mp (Json.ofBytes?_written hobject)) ?_
  rw [Json.read_written hw, if_pos hd]

theorem decode_congr {bs bs' : Bytes} (h : openEnvelope? bs = openEnvelope? bs') :
    decode bs = decode bs' := by
  rw [decode, decode, h]

/-- Whatever stands around the two fields of an envelope, a version other than 1 is refused as such,
and what becomes of a command of version 1 depends on what it stands for alone. A payload beyond a
limit is refused whatever it is. -/
theorem version_gate {bs : Bytes} (henv : Encloses v w members)
    (hbs : (Written.object members).Text bs) (hw : w.Valid) (hd : w.depth + 1 ≤ 127) :
    (v ≠ 1 → decode bs = .error (.unsupportedVersion 1 v)) ∧
    (∃ j, w.read 126 = some j ∧ (v = 1 → decode bs = decode (bareEnvelope j))) ∧
    ∀ limit payload,
      (payload.length ≤ limit → decodeBounded limit payload = decode payload) ∧
      (limit < payload.length →
        decodeBounded limit payload = .error (.payloadTooLarge limit payload.length)) := by
  obtain ⟨j, hj⟩ := Written.exists_read hw (Nat.le_of_succ_le_succ hd)
  obtain ⟨hdepth, hroom, hwritable⟩ := Written.read_spec hj
  have hopen := henv.openEnvelope?_eq hbs hj
  refine ⟨fun hv => ?_, ⟨j, hj, fun hv => ?_⟩, fun limit payload => ⟨fun hle => ?_, fun hlt => ?_⟩⟩
  · rw [decode, hopen]
    exact if_pos hv
  · apply decode_congr
    rw [hopen, hv, openEnvelope?_bareEnvelope hwritable (hdepth.trans_le hroom)]
  · rw [decodeBounded, if_neg (Nat.not_lt.mpr hle)]
  · rw [decodeBounded, if_pos hlt]

def strayEnvelope : Bytes :=
  utf8 (" \x7b\"x\" :1e999,\"command\": [ true ],\"x\":[[]]," ++
    "\"v\\u0065rsion\":7,\"y\":\"\\ud800\"\x7d\n")

theorem version_gate_stray : decode strayEnvelope = .error (.unsupportedVersion 1 7) := by
  have htext : Written.ofBytes? strayEnvelope = some (.object
      ([(utf8 "x", .scalar (.number ⟨false, ['1'], [], [], ['9', '9', '9']⟩))] ++
        (utf8 "command", .array [.scalar (.bool true)]) ::
          ([(utf8 "x", .array [.array []])] ++ (utf8 "v\\u0065rsion", writtenVersion 7) ::
            [(utf8 "y", .scalar (.string (utf8 "\\ud800")))]))) := by
    cbv
  have henv := Encloses.commandFirst (v := 7) (w := .array [.scalar (.bool true)])
    (show stringOfBody? (utf8 "v\\u0065rsion") = some "version" by cbv)
    (show stringOfBody? (utf8 "command") = some "command" by cbv)
    (show Foreign [(utf8 "x", .scalar (.number ⟨false, ['1'], [], [], ['9', '9', '9']⟩))] from
      List.forall_mem_singleton.mpr ⟨"x", by cbv, by decide⟩)
    (show Foreign [(utf8 "x", .array [.array []])] from
      List.forall_mem_singleton.mpr ⟨"x", by cbv, by decide⟩)
    (show Foreign [(utf8 "y", .scalar (.string (utf8 "\\ud800")))] from
      List.forall_mem_singleton.mpr ⟨"y", by cbv, by decide⟩)
  have hgate := version_gate henv (Written.ofBytes?_eq_some_iff.mp htext) ⟨trivial, trivial⟩
    (by decide)
  exact hgate.1 (by decide)

end PeerMesh
