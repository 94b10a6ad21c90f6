import PeerMesh.Proofs.Events.Steady
import PeerMesh.Proofs.Interpreter.Frame
import PeerMesh.Proofs.Interpreter.Traceless

namespace PeerMesh

variable {ν σ : Type}

/-- What is done around map-reduces: one is started, the handle of the `n`-th that was acknowledged
is cancelled or dropped, or a payload comes in. -/
inductive Errand (ν : Type)
  | start (key mapper : String) (shape : ResponseShape) (reducer : Reducer ν)
  | finish (n : Nat)
  | receive (x : Intake)

/-- A map-reduce that was acknowledged, and whether somebody still holds it. -/
structure Handle (ν : Type) where
  mapReduce : MapReduce
  reducer : Reducer ν
  held : Bool

def Handle.id (h : Handle ν) : Nat :=
  h.mapReduce.subscription.id

def Handle.ended (h : Handle ν) : Handle ν :=
  { h with held := false }

theorem Handle.id_ended (h : Handle ν) : h.ended.id = h.id :=
  rfl

def Handle.registered (h : Handle ν) : Registered ν :=
  ⟨h.id, .broadcastCustomResult, Site.reducing h.mapReduce.job h.reducer⟩

/-- A site, what is behind its link, and the map-reduces in the order of their starts. -/
structure Desk (ν σ : Type) where
  site : Site ν
  world : σ
  handles : List (Handle ν)

/-- The subscriptions of the map-reduces, those included that have ended. -/
def Desk.ids (d : Desk ν σ) : List Nat :=
  d.handles.map Handle.id

/-- The response to `job` that comes in, for a peer with this limit. What one peer sends to this
one alone never is a response. -/
def Intake.answer? (limit : Nat) (job : JobId) : Intake → Option (Fields Val × Command)
  | broadcast _ payload => (readWithin limit payload).bind (Command.answer? job)
  | unicast .. => none

namespace Errand

variable (link : Link σ)

def perform : Errand ν → Desk ν σ → List (Remark ν) × Desk ν σ
  | start key mapper shape reducer, d =>
    match d.site.mapReduce link key mapper shape reducer d.world with
    | (.error _, s, w) => ([], ⟨s, w, d.handles⟩)
    | (.ok m, s, w) => ([], ⟨s, w, d.handles ++ [⟨m, reducer, true⟩]⟩)
  | finish n, d =>
    match d.handles[n]? with
    | none => ([], d)
    | some h =>
      ([], ⟨{ d.site with hub := h.mapReduce.cancel d.site.hub }, d.world,
        d.handles.set n h.ended⟩)
  | receive x, d => ((d.site.serve x).remarks, { d with site := (d.site.serve x).after })

def answer? (limit : Nat) (job : JobId) : Errand ν → Option (Fields Val × Command)
  | receive x => x.answer? limit job
  | _ => none

def ends (k : Nat) : Errand ν → Bool
  | finish n => n = k
  | _ => false

def Spares (job : JobId) : Errand ν → Prop
  | start _ _ _ reducer => reducer.Spares job
  | _ => True

end Errand

def Desk.run (link : Link σ) : List (Errand ν) → Desk ν σ → List (Remark ν) × Desk ν σ
  | [], d => ([], d)
  | e :: errands, d =>
    let (log, d) := e.perform link d
    let (more, d) := run link errands d
    (log ++ more, d)

theorem Desk.run_cons (link : Link σ) (e : Errand ν) (errands : List (Errand ν)) (d : Desk ν σ) :
    run link (e :: errands) d =
      ((e.perform link d).1 ++ (run link errands (e.perform link d).2).1,
        (run link errands (e.perform link d).2).2) :=
  rfl

theorem Desk.run_append (link : Link σ) (before errands : List (Errand ν)) (d : Desk ν σ) :
    run link (before ++ errands) d =
      ((run link before d).1 ++ (run link errands (run link before d).2).1,
        (run link errands (run link before d).2).2) := by
  induction before generalizing d with
  | nil => rfl
  | cons e before ih =>
    rw [List.cons_append, run_cons, run_cons, ih, List.append_assoc]

theorem Site.serve_moments (s : Site ν) (x : Intake) :
    moments (s.serve x).remarks = [] ∨
      ∃ e : Event, moments (s.serve x).remarks = (s.hub.emit e).2 := by
  cases x with
  | broadcast view payload =>
    obtain ⟨-, hlog, -⟩ | ⟨e, -, hlog, -⟩ := s.receiveBroadcast_hub view payload default
    · exact .inl hlog
    · exact .inr ⟨e, hlog⟩
  | unicast sender payload =>
    obtain ⟨-, hlog⟩ | ⟨e, -, hlog, -⟩ := s.receiveUnicast_hub sender payload default
    · exact .inl hlog
    · exact .inr ⟨e, hlog⟩

variable {job : JobId} {s : Subscription} {listener : Listener ν}

namespace Site

variable {P : Hub ν → Prop} {site : Site ν}

theorem serve_steady (hP : Hub.Steady job P) (hh : P site.hub) (x : Intake) :
    P (site.serve x).after.hub := by
  rw [site.serve_emits x]
  exact List.foldlRecOn _ _ hh fun h hh e _ => Hub.emit_preserves hP.toInvariant hh e

theorem reductions_serve_of_absent (hP : Hub.Steady job P) (hh : P site.hub)
    (hs : ∀ l ∈ site.hub.listeners, l.id ≠ s.id) (x : Intake) :
    reductions s job (moments (site.serve x).remarks) = [] := by
  obtain hlog | ⟨e, hlog⟩ := site.serve_moments x
  · rw [hlog]
    rfl
  · rw [hlog]
    exact Hub.reductions_emit_of_absent hP.toInvariant hh hs e

theorem serve_watches (hw : site.hub.Watches s job listener) (x : Intake) :
    (site.serve x).after.hub.Watches s job listener ∧
      reductions s job (moments (site.serve x).remarks) =
        (x.answer? site.interpreter.maxPayload job).toList := by
  cases x with
  | broadcast view payload => exact receiveBroadcast_watches view hw payload
  | unicast sender payload => exact receiveUnicast_watches hw sender payload

theorem mapReduce_maxPayload (link : Link σ) (site : Site ν) (key mapper : String)
    (shape : ResponseShape) (reducer : Reducer ν) (w : σ) :
    (site.mapReduce link key mapper shape reducer w).2.1.interpreter.maxPayload =
      site.interpreter.maxPayload := by
  obtain ⟨clock, ids, h⟩ := Call.perform_frame link (.mapReduce key mapper shape reducer) site w
  rw [Call.perform] at h
  dsimp only at h
  rw [h]

end Site

namespace Errand

variable (link : Link σ) (e : Errand ν) (d : Desk ν σ)

theorem site_start (key mapper : String) (shape : ResponseShape) (reducer : Reducer ν) :
    ((start key mapper shape reducer).perform link d).2.site =
      (d.site.mapReduce link key mapper shape reducer d.world).2.1 := by
  rw [perform]
  rcases d.site.mapReduce link key mapper shape reducer d.world with ⟨e | m, site, w⟩
  · rfl
  · rfl

/-- A start takes the next subscription. If it fails, that ends at once, and else there is one
handle more. -/
theorem perform_start (key mapper : String) (shape : ResponseShape) (reducer : Reducer ν) :
    let done := (start key mapper shape reducer).perform link d
    let result := (d.site.mapReduce link key mapper shape reducer d.world).1
    let m : MapReduce := ⟨d.site.nextJob.1, ⟨d.site.hub.next⟩⟩
    done.1 = [] ∧
      ((∃ e, result = .error e ∧
          done.2.site.hub = (d.site.awaiting reducer).hub.cancel m.subscription ∧
          done.2.handles = d.handles) ∨
        (result = .ok m ∧ done.2.site.hub = (d.site.awaiting reducer).hub ∧
          done.2.handles = d.handles ++ [⟨m, reducer, true⟩])) := by
  have hcases := d.site.mapReduce_hub link key mapper shape d.world reducer
  dsimp only
  rw [perform]
  rcases hm : d.site.mapReduce link key mapper shape reducer d.world with ⟨e | m, site, w⟩
  · rw [hm] at hcases
    obtain ⟨-, -, hhub⟩ | ⟨hok, -⟩ := hcases
    · exact ⟨rfl, .inl ⟨e, rfl, hhub, rfl⟩⟩
    · cases hok
  · rw [hm] at hcases
    obtain ⟨e, he, -⟩ | ⟨hok, hhub⟩ := hcases
    · cases he
    · cases hok
      exact ⟨rfl, .inr ⟨rfl, hhub, rfl⟩⟩

theorem perform_maxPayload :
    (e.perform link d).2.site.interpreter.maxPayload = d.site.interpreter.maxPayload := by
  cases e with
  | start key mapper shape reducer =>
    rw [site_start]
    exact d.site.mapReduce_maxPayload link key mapper shape reducer d.world
  | finish n =>
    rw [perform]
    split
    · rfl
    · rfl
  | receive x => exact (d.site.serve_resembles x).maxPayload

theorem ids_perform :
    (e.perform link d).2.ids = d.ids ∨
      ((e.perform link d).2.ids = d.ids ++ [d.site.hub.next] ∧
        (e.perform link d).2.site.hub.next = d.site.hub.next + 1) := by
  cases e with
  | start key mapper shape reducer =>
    obtain ⟨-, ⟨-, -, -, hhandles⟩ | ⟨-, hhub, hhandles⟩⟩ :=
      perform_start link d key mapper shape reducer
    · exact .inl (congrArg (List.map _) hhandles)
    · refine .inr ⟨?_, congrArg Hub.next hhub⟩
      rw [Desk.ids, hhandles, List.map_append]
      rfl
  | finish n =>
    refine .inl ?_
    rw [perform]
    split
    · rfl
    · next h hn =>
      obtain ⟨hlt, rfl⟩ := List.getElem?_eq_some_iff.mp hn
      have hlen : n < d.ids.length := by rw [Desk.ids, List.length_map]; exact hlt
      have hid : d.ids[n] = d.handles[n].id := List.getElem_map _
      rw [Desk.ids, List.map_set, Handle.id_ended, ← hid]
      exact List.set_getElem_self hlen
  | receive x => exact .inl rfl

variable {e d} {P : Hub ν → Prop}

theorem perform_steady (hP : Hub.Steady job P) (he : e.Spares job) (hd : P d.site.hub) :
    P (e.perform link d).2.site.hub := by
  cases e with
  | start key mapper shape reducer =>
    have hon : P (d.site.awaiting reducer).hub := hP.on (Site.reducing_spares he _) hd
    obtain ⟨-, ⟨-, -, hhub, -⟩ | ⟨-, hhub, -⟩⟩ := perform_start link d key mapper shape reducer
    · rw [hhub]
      exact hP.cancel _ hon
    · rw [hhub]
      exact hon
  | finish n =>
    rw [perform]
    split
    · exact hd
    · exact hP.cancel _ hd
  | receive x => exact Site.serve_steady hP hd x

theorem reductions_perform_of_absent (hP : Hub.Steady job P) (hd : P d.site.hub)
    (hs : ∀ l ∈ d.site.hub.listeners, l.id ≠ s.id) :
    reductions s job (moments (e.perform link d).1) = [] := by
  cases e with
  | start key mapper shape reducer =>
    rw [(perform_start link d key mapper shape reducer).1]
    rfl
  | finish n =>
    rw [perform]
    split
    · rfl
    · rfl
  | receive x => exact Site.reductions_serve_of_absent hP hd hs x

end Errand

end PeerMesh
