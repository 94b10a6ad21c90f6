import PeerMesh.Proofs.Events.Kept

namespace PeerMesh

variable {ν : Type}

namespace Chronicle

variable {depth level : Nat} {c : Chronicle ν}

def Emits (depth level : Nat) (emit : Chronicle ν → Event → Chronicle ν) : Prop :=
  ∀ c e, c.Kept → Nested level c.past → ∃ new, Grows depth none c (emit c e) new

theorem Grows.andThen {d : Chronicle ν} {new : List (Happening ν)} {f : Chronicle ν → Chronicle ν}
    (h : Grows depth none c d new) (hn : Nested level c.past)
    (hf : ∀ {d : Chronicle ν}, d.Kept → Nested level d.past →
      ∃ more, Grows depth none d (f d) more) :
    ∃ new, Grows depth none c (f d) new := by
  obtain ⟨more, hmore⟩ := hf h.kept (h.nested_past hn)
  exact ⟨_, h.trans hmore fun n hn => by cases hn⟩

theorem Kept.reaction {emit : Chronicle ν → Event → Chronicle ν} (hemit : Emits depth level emit)
    (r : Reaction ν) (hc : c.Kept) (hn : Nested level c.past) :
    ∃ new, Grows depth none c (r.chronicle emit c) new := by
  have hnone : ∀ {d : Chronicle ν}, ∀ n ∈ (none : Option Nat), n < d.past.length :=
    fun n hn => by cases hn
  induction r generalizing c with
  | done | panic => exact ⟨[], .refl hc⟩
  | note what next ih => exact (hc.note depth what).andThen hn ih
  | post mailbox e next ih =>
    have hpost : Grows depth none c { c with hub := c.hub.post mailbox e } [] :=
      { Grows.refl hc with limit := rfl, kept := hc.post mailbox e }
    exact hpost.andThen hn ih
  | cancel name next ih =>
    obtain ⟨new, hnew, -⟩ := hc.release depth name hnone
    exact hnew.andThen hn ih
  | listen name kind listener next _ ih =>
    obtain ⟨new, hnew⟩ := hc.listen depth name kind listener hnone
    exact hnew.andThen hn ih
  | emit e next ih =>
    obtain ⟨new, hnew⟩ := hemit c e hc hn
    exact hnew.andThen hn ih

theorem Kept.called (hc : c.Kept) (n id : Nat) (e : Event) :
    Grows depth (some n) c (c.add (.called n id e)) [.called n id e] where
  past := rfl
  limit := rfl
  kept := hc.add (fun _ => rfl) fun _ h => by cases h
  unfolds := ⟨trivial, trivial⟩
  calls m id' e' h := by
    cases List.mem_singleton.mp h
    exact .inl rfl
  complete := .single c.past rfl
  nested := rfl

/-- The listeners are called one after the other, and what they do makes no call for this
emission. -/
theorem Kept.calls {emit : Chronicle ν → Event → Chronicle ν} (hemit : Emits depth level emit)
    (conduct : Conduct ν) {n : Nat} (e : Event) (ls : List (Registered ν)) (hc : c.Kept)
    (hn : Nested level c.past) (hlt : n < c.past.length) :
    ∃ new, Grows depth (some n) c
        (ls.foldl
          (fun d l => (conduct d.past l e).chronicle emit (d.count.add (.called n l.id e))) c) new ∧
      callsOf n new = ls.map fun l => (l.id, e) := by
  induction ls generalizing c with
  | nil => exact ⟨[], .refl hc, rfl⟩
  | cons l ls ih =>
    have hown : ∀ m ∈ some n, m < c.past.length := fun m hm => Option.some.inj hm ▸ hlt
    have hcount : Grows depth (some n) c c.count [.counted c.hub.count] := hc.count depth
    have hcall := hcount.trans (hcount.kept.called n l.id e) hown
    obtain ⟨more, hmore⟩ := hcall.kept.reaction hemit (conduct c.past l e) (hcall.nested_past hn)
    have hstep := hcall.trans hmore.mono hown
    have hlt' : n < ((conduct c.past l e).chronicle emit
        (c.count.add (.called n l.id e))).past.length := by
      rw [hstep.past, List.length_append]
      omega
    obtain ⟨rest, hrest, hcalls⟩ := ih hstep.kept (hstep.nested_past hn) hlt'
    refine ⟨_, hstep.trans hrest hown, ?_⟩
    have hnone : callsOf n more = [] := by
      refine callsOf_eq_nil fun id e' hmem => ?_
      have hle := hmore.le_of_called hmem
      rw [hcall.past, List.length_append] at hle
      omega
    have hcall' : callsOf n ([.counted c.hub.count] ++ [Happening.called (ν := ν) n l.id e]) =
        [(l.id, e)] :=
      congrArg Option.toList (if_pos rfl)
    rw [callsOf_append, callsOf_append, hnone, hcalls, hcall']
    rfl

theorem Kept.addressees (hc : c.Kept) (kind : EventKind) :
    addressees c.past kind = (c.hub.listening kind).map (·.id) := by
  rw [PeerMesh.addressees, ← hc.table, List.filter_map, List.map_map, Hub.listening]
  rfl

theorem Kept.emitWithin (conduct : Conduct ν) {remaining : Nat} (hdepth : level + remaining = depth)
    (hc : c.Kept) (hn : Nested level c.past) (e : Event) :
    ∃ new, Grows depth none c (c.emitWithin conduct remaining e) new := by
  induction remaining generalizing c level e with
  | zero =>
    refine ⟨[.refused e], .plain rfl (hc.add (fun _ => rfl) fun _ h => by cases h) ?_ rfl⟩
    exact hdepth ▸ hn
  | succ remaining ih =>
    have hstart : (c.add (.began e)).Kept := hc.add (fun _ => rfl) fun _ h => by cases h
    have hnested : Nested (level + 1) (c.add (.began e)).past := by
      rw [Nested] at hn ⊢
      rw [Chronicle.add, List.countP_append, List.countP_append, hn]
      exact Nat.add_assoc _ level 1
    have hlt : c.past.length < (c.add (.began e)).past.length := by
      rw [Chronicle.add, List.length_append]
      exact Nat.lt_succ_self _
    have hemit : Emits depth (level + 1) (Chronicle.emitWithin conduct remaining) :=
      fun d e' hd hnd => ih (by omega) hd hnd e'
    obtain ⟨new, hnew, hcalls⟩ :=
      hstart.calls hemit conduct e (c.hub.listening e.kind) hnested hlt
    have hpast : ((c.hub.listening e.kind).foldl
        (fun d l =>
          (conduct d.past l e).chronicle (Chronicle.emitWithin conduct remaining)
            (d.count.add (.called c.past.length l.id e)))
        (c.add (.began e))).past = c.past ++ .began e :: new := by
      rw [hnew.past, Chronicle.add, List.append_assoc, List.singleton_append]
    have hfinish := hnew.kept.add (x := .finished c.past.length) (fun _ => rfl)
      fun _ h => by cases h
    have hown : ∀ n ∈ some c.past.length, n < (c.add (.began e)).past.length :=
      fun n hn => Option.some.inj hn ▸ hlt
    have hdue : callsOf c.past.length (new ++ [.finished c.past.length]) =
        (PeerMesh.addressees c.past e.kind).map fun id => (id, e) := by
      rw [callsOf_append, hcalls, hc.addressees, List.map_map]
      exact List.append_nil _
    refine ⟨.began e :: (new ++ [.finished c.past.length]), ?_, hnew.limit, hfinish, ?_, ?_, ?_,
      ?_⟩
    · rw [Chronicle.emitWithin, Chronicle.add, hpast, List.append_assoc, List.cons_append]
    · exact ⟨trivial, unfolds_append.mpr ⟨hnew.unfolds, trivial, trivial⟩⟩
    · intro n id e' hmem
      obtain hmem | hmem := List.mem_cons.mp hmem
      · cases hmem
      · obtain hmem | hmem := List.mem_append.mp hmem
        · obtain hn | hle := hnew.calls n id e' hmem
          · exact .inr (Nat.le_of_eq (Option.some.inj hn))
          · exact .inr (Nat.le_of_lt (Nat.lt_of_lt_of_le hlt hle))
        · cases List.mem_singleton.mp hmem
    · refine .emission (hnew.complete.append (.single _ rfl) hown fun n id e' hmem => ?_) hdue
      cases List.mem_singleton.mp hmem
    · rw [List.countP_cons, List.countP_cons, List.countP_append, List.countP_append, hnew.nested]
      rfl

theorem Kept.use (conduct : Conduct ν) (u : Hub.Use ν) (hc : c.Kept) (hn : Nested 0 c.past) :
    ∃ new, Grows (c.hub.depth + 1) none c (u.chronicle conduct c) new := by
  have hnone : ∀ n ∈ (none : Option Nat), n < c.past.length := fun n hn => by cases hn
  cases u with
  | on name kind listener => exact hc.listen _ name kind listener hnone
  | channel name kind => exact hc.channel _ name kind hnone
  | cancel name =>
    obtain ⟨new, hnew, -⟩ := hc.release (c.hub.depth + 1) name hnone
    exact ⟨new, hnew⟩
  | detach name => exact hc.detach _ name
  | emit e => exact hc.emitWithin conduct (Nat.zero_add _) hn e

theorem Kept.uses (conduct : Conduct ν) (uses : List (Hub.Use ν)) (hc : c.Kept)
    (hn : Nested 0 c.past) :
    ∃ new, Grows (c.hub.depth + 1) none c (uses.foldl (fun c u => u.chronicle conduct c) c)
      new := by
  induction uses generalizing c with
  | nil => exact ⟨[], .refl hc⟩
  | cons u uses ih =>
    obtain ⟨new, hnew⟩ := hc.use conduct u hn
    obtain ⟨more, hmore⟩ := ih hnew.kept (hnew.nested_past hn)
    rw [hnew.limit] at hmore
    exact ⟨_, hnew.trans hmore fun n hn => by cases hn⟩

theorem grows_chronicle (depth : Nat) (conduct : Conduct ν) (uses : List (Hub.Use ν)) :
    Grows (depth + 1) none (.empty depth) (chronicle depth conduct uses)
      (chronicle depth conduct uses).past := by
  obtain ⟨new, hnew⟩ := (Kept.empty depth).uses conduct uses rfl
  have hpast : (chronicle depth conduct uses).past = new := hnew.past
  rw [hpast]
  exact hnew

end Chronicle

/-- Each emission calls the listeners of its kind that are live when it begins, once each and in the
order of their subscriptions, whatever listeners do. How deep emissions may be nested is up to the
hub: one that is refused is inside of more others than that. At all times the listeners that are
counted are the live ones, and what was detached stays live. The listeners of the hub itself do the
same without the history. -/
theorem emissions_call_live (depth : Nat) (conduct : Conduct ν) (uses : List (Hub.Use ν)) :
    (∀ before e after, (chronicle depth conduct uses).past = before ++ .began e :: after →
      callsOf before.length after = (addressees before e.kind).map fun id => (id, e)) ∧
    (∀ before e after, (chronicle depth conduct uses).past = before ++ .refused e :: after →
      Nested (depth + 1) before) ∧
    (∀ seen, seen <+: (chronicle depth conduct uses).past →
      (live seen).Pairwise fun s t => s.1 < t.1) ∧
    (∀ before n after, (chronicle depth conduct uses).past = before ++ .counted n :: after →
      n = (live before).length) ∧
    (chronicle depth conduct uses).hub.count = (live (chronicle depth conduct uses).past).length ∧
    (∀ before id after, (chronicle depth conduct uses).past = before ++ .detached id :: after →
      ∀ seen, seen <+: after → id ∈ liveIds (before ++ .detached id :: seen)) ∧
    (chronicle depth .own uses).hub = (Hub.Use.run uses (.empty depth)).1 ∧
    (chronicle depth .own uses).past.filterMap Happening.moment? =
      (Hub.Use.run uses (.empty depth)).2 := by
  have h := Chronicle.grows_chronicle depth conduct uses
  have hunfolds : Unfolds (depth + 1) [] (chronicle depth conduct uses).past := h.unfolds
  refine ⟨?_, ?_, ?_, ?_, h.kept.length_live, ?_, ?_⟩
  · intro before e after heq
    have hcalls := h.complete before e after heq
    rw [show (Chronicle.empty depth : Chronicle ν).past = [] from rfl, List.length_nil,
      Nat.zero_add, List.nil_append] at hcalls
    exact hcalls
  · intro before e after heq
    rw [heq] at hunfolds
    exact hunfolds.follows
  · rintro seen ⟨rest, heq⟩
    rw [← heq] at hunfolds
    exact (unfolds_append.mp hunfolds).1.ascending .nil
  · intro before n after heq
    rw [heq] at hunfolds
    exact hunfolds.follows
  · rintro before id after heq seen ⟨rest, rfl⟩
    rw [heq, List.append_cons, ← List.append_assoc] at hunfolds
    rw [List.append_cons]
    obtain ⟨hseen, -⟩ := unfolds_append.mp hunfolds
    obtain ⟨hbefore, hrest⟩ := unfolds_append.mp hseen
    have hmem : Happening.detached id ∈ before ++ [.detached id] :=
      List.mem_append_right before List.mem_cons_self
    refine hrest.stays hmem ?_
    rw [List.nil_append, liveIds, live_append]
    exact hbefore.follows
  · have hrecords := (Chronicle.Records.empty depth).uses uses
    exact ⟨hrecords.hub, hrecords.log⟩

end PeerMesh
