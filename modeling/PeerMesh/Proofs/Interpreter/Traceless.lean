import PeerMesh.Proofs.Interpreter.Heard
import PeerMesh.Proofs.Interpreter.Invocations

namespace PeerMesh

/-- The errors of what is given up before anything is done for it. -/
def DispatchError.isTraceless : DispatchError → Bool
  | codec _ => true
  | unsupported _ => true
  | custom _ (.unknownMapper _) => true
  | custom _ (.notFound _) => true
  | custom .. => false

/-- A payload that comes in, by broadcast while the neighbours are those of `view`, or from one
peer. -/
inductive Intake
  | broadcast (view : View) (payload : Bytes)
  | unicast (sender : PeerId) (payload : Bytes)

/-- All that serving a payload comes to: what is told to the one who handed it in, the events, the
calls of recipes and mappers, what else can be seen, and the site after it. -/
structure Service (ν : Type) where
  result : Except DispatchError Unit
  events : List Event
  invocations : List Invocation
  remarks : List (Remark ν)
  after : Site ν

variable {ν : Type}

def Service.isTraceless (v : Service ν) : Bool :=
  match v.result with
  | .error e => e.isTraceless
  | .ok () => false

theorem Service.isTraceless_iff {v : Service ν} :
    v.isTraceless ↔ ∃ e, v.result = .error e ∧ e.isTraceless := by
  rw [isTraceless]
  cases v.result with
  | error e => simp
  | ok _ => simp

namespace Site

def serve (s : Site ν) : Intake → Service ν
  | .broadcast view payload =>
    let (result, after, remarks) := s.receiveBroadcast view payload
    ⟨result, s.broadcastEvents view payload, s.broadcastInvocations view payload, remarks, after⟩
  | .unicast sender payload =>
    let (result, after, remarks) := s.receiveUnicast sender payload
    ⟨result, s.unicastEvents sender payload, s.unicastInvocations sender payload, remarks, after⟩

def services : Site ν → List Intake → List (Service ν)
  | _, [] => []
  | s, x :: xs => s.serve x :: (s.serve x).after.services xs

def afterAll (s : Site ν) (xs : List Intake) : Site ν :=
  xs.foldl (fun s x => (s.serve x).after) s

end Site

def marked {α : Type} (xs : List (α × Bool)) : List α :=
  (xs.filter (·.2)).map (·.1)

namespace Site

variable (s : Site ν)

theorem serve_emits (x : Intake) :
    (s.serve x).after.hub = (s.serve x).events.foldl (fun h e => (h.emit e).1) s.hub := by
  cases x with
  | broadcast view payload => exact s.receiveBroadcast_emits view payload
  | unicast sender payload => exact s.receiveUnicast_emits sender payload

theorem serve_resembles (x : Intake) :
    Interpreter.Resembles (s.serve x).after.interpreter s.interpreter := by
  cases x with
  | broadcast view payload => exact s.receiveBroadcast_resembles view payload
  | unicast sender payload =>
    rw [serve]
    dsimp only
    rw [s.receiveUnicast_interpreter sender payload]
    exact .refl _

/-- A mapper that is not there and a key that is not there are noticed before anything is called. -/
theorem receiveCustom_traceless (view : View) {job : JobId} {key mapper : String}
    {shape : ResponseShape} {reason : FailureReason}
    (h : (s.receiveCustom view job key mapper shape).1 = .error reason)
    (ht : (DispatchError.custom job reason).isTraceless) :
    (s.receiveCustom view job key mapper shape).2 = (s, []) ∧
      s.customInvocations view job key mapper shape = [] := by
  cases hm : s.interpreter.mappers.get? mapper with
  | none => simp [receiveCustom, customInvocations, hm]
  | some f =>
    rw [receiveCustom, hm] at h ⊢
    rw [customInvocations, hm]
    rcases hr : s.store.resolve view key with ⟨_ | _ | v, store⟩
    · rw [hr] at h
      cases h
      cases ht
    · have hnil := Store.invocations_of_resolve_none (congrArg Prod.fst hr)
      have hstore := Store.resolve_of_invocations_nil hnil
      rw [hr] at hstore
      cases hstore
      simp [hnil]
    · rw [hr] at h
      dsimp only at h
      split at h
      · cases h
      · cases h
        cases ht
      · cases h
        cases ht

theorem broadcast_traceless (view : View) {payload : Bytes}
    (h : (s.serve (.broadcast view payload)).isTraceless) :
    (s.receiveBroadcast view payload).2 = (s, []) ∧ s.broadcastEvents view payload = [] ∧
      s.broadcastInvocations view payload = [] := by
  obtain ⟨e, he, ht⟩ := Service.isTraceless_iff.mp h
  rw [broadcastEvents_eq]
  cases hr : s.reads payload with
  | none =>
    obtain ⟨e', hd⟩ := s.decode_of_reads_none hr
    simp [receiveBroadcast, broadcastInvocations, hd]
  | some c =>
    have hd : s.decode payload = .ok c := decode_eq_ok.mpr hr
    rw [serve, receiveBroadcast, hd] at he
    cases c with
    | rpc name args | customResponse job value => cases he
    | custom job key mapper shape =>
      rw [receiveBroadcast_custom view hd, broadcastInvocations, hd]
      dsimp only at he
      split at he
      · next reason site log hc =>
        cases he
        have hnone := s.receiveCustom_traceless view (congrArg Prod.fst hc) ht
        exact ⟨hnone.1, rfl, hnone.2⟩
      · cases he

theorem unicast_traceless {sender : PeerId} {payload : Bytes}
    (h : (s.serve (.unicast sender payload)).isTraceless) :
    (s.receiveUnicast sender payload).2 = (s, []) ∧ s.unicastEvents sender payload = [] := by
  obtain ⟨e, he, -⟩ := Service.isTraceless_iff.mp h
  rw [unicastEvents_eq]
  cases hr : s.reads payload with
  | none =>
    obtain ⟨e', hd⟩ := s.decode_of_reads_none hr
    simp [receiveUnicast, hd]
  | some c =>
    have hd : s.decode payload = .ok c := decode_eq_ok.mpr hr
    rw [serve, receiveUnicast, hd] at he
    cases c with
    | rpc name args => cases he
    | custom | customResponse => simp [receiveUnicast, hd, Registry.unicastEvent?]

theorem serve_traceless {x : Intake} (h : (s.serve x).isTraceless) :
    (s.serve x).after = s ∧ (s.serve x).events = [] ∧ (s.serve x).invocations = [] ∧
      (s.serve x).remarks = [] := by
  cases x with
  | broadcast view payload =>
    obtain ⟨hsame, hevents, hcalls⟩ := s.broadcast_traceless view h
    exact ⟨congrArg Prod.fst hsame, hevents, hcalls, congrArg Prod.snd hsame⟩
  | unicast sender payload =>
    obtain ⟨hsame, hevents⟩ := s.unicast_traceless h
    exact ⟨congrArg Prod.fst hsame, hevents, s.unicastInvocations_eq_nil sender payload,
      congrArg Prod.snd hsame⟩

/-- Of all payloads, any that are given up early may be left out: the other ones are served as they
were, and nothing is lost by it. -/
theorem services_marked (intakes : List (Intake × Bool))
    (hout : ∀ x ∈ (s.services (intakes.map (·.1))).zip (intakes.map (·.2)),
      x.2 = false → x.1.isTraceless) :
    let all := s.services (intakes.map (·.1))
    let rest := s.services (marked intakes)
    rest = marked (all.zip (intakes.map (·.2))) ∧
    s.afterAll (marked intakes) = s.afterAll (intakes.map (·.1)) ∧
    rest.flatMap (·.events) = all.flatMap (·.events) ∧
    rest.flatMap (·.invocations) = all.flatMap (·.invocations) ∧
    rest.flatMap (·.remarks) = all.flatMap (·.remarks) := by
  induction intakes generalizing s with
  | nil => exact ⟨rfl, rfl, rfl, rfl, rfl⟩
  | cons p intakes ih =>
    obtain ⟨x, mark⟩ := p
    obtain ⟨hfirst, hothers⟩ := List.forall_mem_cons.mp hout
    obtain ⟨hrest, hafter, hevents, hcalls, hremarks⟩ := ih (s.serve x).after hothers
    cases mark with
    | true =>
      refine ⟨congrArg ((s.serve x) :: ·) hrest, hafter, ?_, ?_, ?_⟩
      · exact congrArg ((s.serve x).events ++ ·) hevents
      · exact congrArg ((s.serve x).invocations ++ ·) hcalls
      · exact congrArg ((s.serve x).remarks ++ ·) hremarks
    | false =>
      -- The site is where it was, so it serves the other payloads as if there had been no `x`.
      obtain ⟨hsame, hnoevent, hnocall, hnoremark⟩ := s.serve_traceless (hfirst rfl)
      rw [hsame] at hrest hafter hevents hcalls hremarks
      simp only [List.map_cons, services, List.flatMap_cons, hnoevent, hnocall, hnoremark,
        List.nil_append, hsame]
      refine ⟨hrest, ?_, hevents, hcalls, hremarks⟩
      rw [afterAll, afterAll, List.foldl_cons, hsame]
      exact hafter

def counting : Site Unit where
  interpreter := {
    peer := ⟨"a"⟩
    protocol := "interpreter"
    registry := Registry.empty.register "ping" ⟨0, fun _ => .value .unit⟩
    mappers := Dict.empty.insert "repeat" fun job _ v => .emit job "value" v fun _ => .done
    maxPayload := 200
    clock := .ofOwner ⟨"a"⟩
    jobIds := .ofStem "a"
    pump := .running true true
    outbox := []
    emitters := [] }
  store := (Store.empty.allocate .unit).2.insert "count"
    (.recipe (.load 0 fun v => .save 0 (.list [v]) (.done v)))
  hub := .empty

def mixture (view : View) : List (Intake × Bool) :=
  [(.broadcast view (utf8 "ping"), false),
    (.broadcast view (Command.custom ⟨"j"⟩ "count" "repeat" .stream).enveloped, true),
    (.broadcast view (Command.custom ⟨"j"⟩ "absent" "repeat" .stream).enveloped, false),
    (.broadcast view (Command.custom ⟨"j"⟩ "count" "absent" .stream).enveloped, false),
    (.unicast ⟨"b"⟩ (Command.custom ⟨"j"⟩ "count" "repeat" .stream).enveloped, false),
    (.unicast ⟨"b"⟩ (Command.rpc "ping" []).enveloped, true),
    (.broadcast view (Command.custom ⟨"j"⟩ "count" "repeat" .once).enveloped, true)]

theorem services_marked_mixture :
    let all := counting.services ((mixture fun _ => []).map (·.1))
    let rest := counting.services (marked (mixture fun _ => []))
    rest.map (·.result) = [.ok (), .ok (), .ok ()] ∧
    rest.flatMap (·.invocations) = all.flatMap (·.invocations) ∧
    (all.flatMap (·.invocations)).length = 4 ∧
    (counting.afterAll (marked (mixture fun _ => []))).interpreter.outbox.length = 2 := by
  have hout : ∀ x ∈ (counting.services ((mixture fun _ => []).map (·.1))).zip
      ((mixture fun _ => []).map (·.2)), x.2 = false → x.1.isTraceless := by
    decide +kernel
  obtain ⟨-, hafter, -, hcalls, -⟩ := counting.services_marked (mixture fun _ => []) hout
  refine ⟨by decide +kernel, hcalls, by decide +kernel, ?_⟩
  rw [hafter]
  decide +kernel

end Site

end PeerMesh
