import PeerMesh.Proofs.Meaning
import PeerMesh.Proofs.Wire.Grammar

namespace PeerMesh

open Json (Written only? stringOfBody? Counts Keeps)

namespace Json

variable {n : Nat}

theorem depthItems_le_iff {js : List Json} : depthItems js ≤ n ↔ ∀ j ∈ js, j.depth ≤ n := by
  induction js with
  | nil => simp [depthItems]
  | cons j js ih => rw [depthItems, Nat.max_le, ih, List.forall_mem_cons]

theorem depthMembers_le_iff {ms : List (String × Json)} :
    depthMembers ms ≤ n ↔ ∀ m ∈ ms, m.2.depth ≤ n := by
  induction ms with
  | nil => simp [depthMembers]
  | cons m ms ih => rw [depthMembers, Nat.max_le, ih, List.forall_mem_cons]

theorem Written.depthMembers_le_iff {ms : List (Bytes × Written)} :
    Written.depthMembers ms ≤ n ↔ ∀ m ∈ ms, m.2.depth ≤ n := by
  induction ms with
  | nil => simp [Written.depthMembers]
  | cons m ms ih => rw [Written.depthMembers, Nat.max_le, ih, List.forall_mem_cons]

theorem writableItems_iff {js : List Json} : WritableItems js ↔ ∀ j ∈ js, j.Writable := by
  induction js with
  | nil => simp [WritableItems]
  | cons j js ih => rw [WritableItems, ih, List.forall_mem_cons]

theorem writableMembers_iff {ms : List (String × Json)} :
    WritableMembers ms ↔ ∀ m ∈ ms, m.2.Writable := by
  induction ms with
  | nil => simp [WritableMembers]
  | cons m ms ih => rw [WritableMembers, ih, List.forall_mem_cons]

end Json

namespace Val

variable {n m : Nat} {v : Val} {vs : List Val} {fs : Fields Val}

theorem nestingItems_le_iff : nestingItems vs ≤ n ↔ ∀ v ∈ vs, v.nesting ≤ n := by
  induction vs with
  | nil => simp [nestingItems]
  | cons v vs ih => rw [nestingItems, Nat.max_le, ih, List.forall_mem_cons]

theorem nestingFields_le_iff : nestingFields fs ≤ n ↔ ∀ f ∈ fs, f.2.nesting ≤ n := by
  induction fs with
  | nil => simp [nestingFields]
  | cons f fs ih => rw [nestingFields, Nat.max_le, ih, List.forall_mem_cons]

/-- The value is written in at most `n` nested containers and read back as it is. -/
structure Sendable (n : Nat) (v : Val) : Prop where
  canonical : v.Canonical
  isFinite : v.isFinite
  nesting_le : v.nesting ≤ n

theorem Sendable.mono (h : Sendable n v) (hnm : n ≤ m) : Sendable m v :=
  ⟨h.canonical, h.isFinite, h.nesting_le.trans hnm⟩

theorem Sendable.list (h : ∀ v ∈ vs, Sendable n v) : Sendable (n + 2) (list vs) where
  canonical := (allCanonical_iff vs).mpr fun v hv => (h v hv).canonical
  isFinite := by
    rw [Val.isFinite, ← all_isFinite, List.all_eq_true]
    exact fun v hv => (h v hv).isFinite
  nesting_le := Nat.add_le_add_right (nestingItems_le_iff.mpr fun v hv => (h v hv).nesting_le) 2

theorem Sendable.map (ha : fs.Ascending) (h : ∀ f ∈ fs, Sendable n f.2) :
    Sendable (n + 2) (map fs) where
  canonical := ⟨ha, (fieldsCanonical_iff fs).mpr fun f hf => (h f hf).canonical⟩
  isFinite := by
    rw [Val.isFinite, ← all_isFinite_fields, List.all_eq_true]
    exact fun f hf => (h f hf).isFinite
  nesting_le := Nat.add_le_add_right (nestingFields_le_iff.mpr fun f hf => (h f hf).nesting_le) 2

end Val

namespace Json

variable {j : Json} {v : Val} {c : Command} {name : String}

theorem Counts.inside {members : List (String × Json)} (h : Counts name j members)
    (hw : (object members).Writable) : j.Writable ∧ j.depth + 1 ≤ (object members).depth :=
  ⟨writableMembers_iff.mp hw _ h.mem,
    Nat.succ_le_succ (depthMembers_le_iff.mp le_rfl _ h.mem)⟩

theorem Keeps.inside {members : List (String × Json)} (h : Keeps members [(name, j)])
    (hw : (object members).Writable) : j.Writable ∧ j.depth + 1 ≤ (object members).depth :=
  Counts.inside (h.counts (List.mem_singleton.mpr rfl)) hw

theorem sendable_rows {rows : List (Json × Val)} (hw : WritableItems (rows.map fun r => r.1))
    (h : ∀ r ∈ rows, r.1.Writable → r.2.Sendable r.1.depth) :
    ∀ v ∈ rows.map (fun r => r.2), v.Sendable (depthItems (rows.map fun r => r.1)) := by
  refine List.forall_mem_map.mpr fun r hr => ?_
  have hmem : r.1 ∈ rows.map fun r => r.1 := List.mem_map_of_mem hr
  exact (h r hr (writableItems_iff.mp hw _ hmem)).mono (depthItems_le_iff.mp le_rfl _ hmem)

theorem sendable_entries {fields : List (String × Json)} {rows : List (String × Json × Val)}
    (hk : Keeps fields (rows.map fun r => (r.1, r.2.1))) (hw : WritableMembers fields)
    (h : ∀ r ∈ rows, r.2.1.Writable → r.2.2.Sendable r.2.1.depth) :
    Fields.Ascending (rows.map fun r => (r.1, r.2.2)) ∧
      ∀ f ∈ rows.map (fun r => (r.1, r.2.2)), f.2.Sendable (depthMembers fields) := by
  have ha := List.pairwise_map.mp hk.1
  refine ⟨List.pairwise_map.mpr ha, List.forall_mem_map.mpr fun r hr => ?_⟩
  have hmem := hk.mem (List.mem_map_of_mem hr)
  exact (h r hr (writableMembers_iff.mp hw _ hmem)).mono (depthMembers_le_iff.mp le_rfl _ hmem)

/-- What JSON stands for nests no deeper than the JSON. -/
theorem Denotes.sendable (h : j.Denotes v) (hw : j.Writable) : v.Sendable j.depth := by
  induction h with
  | unit => exact ⟨trivial, rfl, le_rfl⟩
  | unitNull | unitEmpty => exact ⟨trivial, rfl, Nat.zero_le _⟩
  | bool | s64 | string => exact ⟨trivial, rfl, Nat.succ_le_succ (Nat.zero_le _)⟩
  | f64 h =>
    exact ⟨trivial, Number.toBinary64_isFinite (h.inside hw).1, Nat.succ_le_succ (Nat.zero_le _)⟩
  | list h hrows ih =>
    obtain ⟨hitems, hdepth⟩ := h.inside hw
    exact (Val.Sendable.list (sendable_rows hitems ih)).mono hdepth
  | map h hk hrows ih =>
    obtain ⟨hfields, hdepth⟩ := h.inside hw
    obtain ⟨ha, hentries⟩ := sendable_entries hk hfields ih
    exact (Val.Sendable.map ha hentries).mono hdepth

end Json

/-- The command is written in an envelope of at most `n` nested containers and read back as it
is. -/
structure Command.Sendable (n : Nat) (c : Command) : Prop where
  canonical : c.Canonical
  isFinite : c.isFinite
  nesting_le : c.nesting ≤ n

namespace Json

variable {j : Json} {c : Command}

theorem DenoteFields.sendable {members : List (String × Json)} (h : DenoteFields members c)
    (hw : (object members).Writable) : c.Sendable ((object members).depth + 1) := by
  cases h with
  | rpc hkind hname hargs h =>
    obtain ⟨hitems, hdepth⟩ := hargs.inside hw
    obtain ⟨rows, rfl, rfl, hrows⟩ := h
    have hsend := sendable_rows hitems fun r hr => (hrows r hr).sendable
    exact ⟨fun v hv => (hsend v hv).canonical,
      List.all_eq_true.mpr fun v hv => (hsend v hv).isFinite,
      Nat.succ_le_succ ((Nat.add_le_add_right
        (Val.nestingItems_le_iff.mpr fun v hv => (hsend v hv).nesting_le) 2).trans hdepth)⟩
  | custom | customStream =>
    exact ⟨trivial, rfl, Nat.succ_le_succ (Nat.succ_le_succ (Nat.zero_le _))⟩
  | customResponse hkind hjob hvalue h =>
    obtain ⟨hfields, hdepth⟩ := hvalue.inside hw
    obtain ⟨rows, hk, rfl, hrows⟩ := h
    obtain ⟨ha, hsend⟩ := sendable_entries hk hfields fun r hr => (hrows r hr).sendable
    exact ⟨⟨ha, fun f hf => (hsend f hf).canonical⟩,
      List.all_eq_true.mpr fun f hf => (hsend f hf).isFinite,
      Nat.succ_le_succ ((Nat.add_le_add_right
        (Val.nestingFields_le_iff.mpr fun f hf => (hsend f hf).nesting_le) 2).trans hdepth)⟩

theorem DenotesCommand.sendable (h : j.DenotesCommand c) (hw : j.Writable) :
    c.Sendable (j.depth + 1) := by
  cases h with
  | object h => exact h.sendable hw
  | @array kind items c hlength h =>
    have hitems : ∀ m ∈ kind.members items, m.2 ∈ string kind.name :: items := by
      refine List.forall_mem_cons.mpr ⟨List.mem_cons_self, fun m hm => ?_⟩
      exact List.mem_cons_of_mem _ (List.of_mem_zip hm).2
    have hmembers : (Json.object (kind.members items)).Writable :=
      writableMembers_iff.mpr fun m hm => writableItems_iff.mp hw _ (hitems m hm)
    have hdepth : (Json.object (kind.members items)).depth ≤
        (Json.array (string kind.name :: items)).depth :=
      Nat.succ_le_succ (depthMembers_le_iff.mpr fun m hm =>
        depthItems_le_iff.mp le_rfl _ (hitems m hm))
    obtain ⟨hc, hf, hn⟩ := h.sendable hmembers
    exact ⟨hc, hf, hn.trans (Nat.succ_le_succ hdepth)⟩

end Json

theorem Json.Written.mem_of_named? {members : List (Bytes × Written)}
    {xs : List (String × Written)} (h : named? members = some xs) {x : String × Written}
    (hx : x ∈ xs) : ∃ m ∈ members, m.2 = x.2 := by
  induction members generalizing xs with
  | nil =>
    cases h
    cases hx
  | cons m members ih =>
    rw [named?] at h
    split at h
    next hname hmembers =>
      cases h
      obtain rfl | hx := List.mem_cons.mp hx
      · exact ⟨m, List.mem_cons_self, rfl⟩
      · obtain ⟨n, hn, he⟩ := ih hmembers hx
        exact ⟨n, List.mem_cons_of_mem _ hn, he⟩
    next => cases h

theorem depth_of_pairOf? {first second : String} {w a b : Written}
    (h : pairOf? first second w = some (a, b)) : b.depth + 1 ≤ w.depth := by
  unfold pairOf? at h
  split at h
  next members =>
    simp only [Option.bind_eq_bind, Option.bind_eq_some_iff, Option.pure_def, Option.some.injEq]
      at h
    obtain ⟨xs, hxs, _, -, y, hy, he⟩ := h
    cases he
    obtain ⟨m, hm, rfl⟩ := Written.mem_of_named? hxs (Json.counts_of_only? hy).mem
    exact Nat.succ_le_succ (Written.depthMembers_le_iff.mp le_rfl m hm)
  next =>
    cases h
    simp [Written.depth, Written.depthItems]
  next => cases h

theorem spec_of_openEnvelope? {bs : Bytes} {v : UInt16} {j : Json}
    (h : openEnvelope? bs = some (v, j)) :
    ∃ w, Written.ofBytes? bs = some w ∧ j.Writable ∧ j.depth + 1 ≤ w.depth ∧ j.depth ≤ 126 := by
  unfold openEnvelope? at h
  simp only [Option.bind_eq_bind, Option.bind_eq_some_iff, Option.pure_def, Option.some.injEq] at h
  obtain ⟨w, hw, ⟨version, command⟩, hpair, _, -, _, -, i, hi, he⟩ := h
  cases he
  obtain ⟨hdepth, hroom, hwritable⟩ := Written.read_spec hi
  rw [← hdepth] at hroom
  exact ⟨w, hw, hwritable, hdepth ▸ depth_of_pairOf? hpair, hroom⟩

/-- Whatever is decoded is encoded in no deeper nesting, and what it is encoded as is decoded as it
again: encoding is a normal form. -/
theorem decode_encode {bs : Bytes} {c : Command} (h : decode bs = .ok c) :
    ∃ bs', encode c = .ok bs' ∧ decode bs' = .ok c ∧
      (∀ c', decode bs' = .ok c' → encode c' = .ok bs') ∧
      ∃ w w', Written.ofBytes? bs = some w ∧ Written.ofBytes? bs' = some w' ∧
        w'.depth ≤ w.depth := by
  obtain ⟨j, hopen, hj⟩ := decode_eq_ok_iff.mp h
  obtain ⟨w, hw, hwritable, hdepth, hroom⟩ := spec_of_openEnvelope? hopen
  obtain ⟨hc, hf, hn⟩ := hj.sendable hwritable
  have hencode := encode_of_isFinite hf
  have hdecode := decode_bytes_of_le hf hc (hn.trans (Nat.succ_le_succ hroom))
  refine ⟨_, hencode, hdecode, fun c' hc' => ?_, w, _, hw,
    Json.ofBytes?_written (Envelope.writable_json hf), ?_⟩
  · rw [hdecode] at hc'
    cases hc'
    exact hencode
  · rw [Json.depth_written, Envelope.depth_json]
    exact hn.trans hdepth

def looseCall : Bytes :=
  utf8 "[ 1 , [\"rpc\", \"\\u0066\", [\x7b\"S64\":true,\"S64\": -3\x7d, \"Unit\"] ] ]"

theorem decode_encode_looseCall :
    ∃ bs, encode (.rpc "f" [.s64 (-3), .unit]) = .ok bs ∧
      decode bs = .ok (.rpc "f" [.s64 (-3), .unit]) := by
  have h : decode looseCall = .ok (.rpc "f" [.s64 (-3), .unit]) := by
    cbv
  obtain ⟨bs, he, hd, -⟩ := decode_encode h
  exact ⟨bs, he, hd⟩

end PeerMesh
