import PeerMesh.Proofs.Interpreter.Tidy

namespace PeerMesh

variable {ν σ : Type}

namespace Desk

theorem Ready.init (i : Interpreter) (store : Store) (depth : Nat) {job : JobId}
    {ops : List (Hub.Op ν)} (hops : ∀ op ∈ ops, op.Spares job) (w : σ) :
    (Desk.mk ⟨i, store, .after depth ops⟩ w []).Ready job where
  hub := List.foldlRecOn (motive := fun h : Hub ν => h.Ready job) ops _ (.empty job depth)
    fun _ hr op hop => hr.perform (hops op hop)
  numbered := ⟨List.nodup_nil, fun id hid => by cases hid⟩

theorem Tidy.init (i : Interpreter) (store : Store) (depth : Nat) (ops : List (Hub.Op ν))
    (hops : (Hub.after depth ops).Quiet) (w : σ) :
    (Desk.mk ⟨i, store, .after depth ops⟩ w []).Tidy (Hub.after depth ops).listeners where
  listeners := (List.append_nil _).symm
  older l hl := ⟨Hub.numbered_after depth ops l hl, fun hmem => by cases hmem⟩
  numbered := ⟨List.nodup_nil, fun id hid => by cases hid⟩
  quiet := hops

def eavesdropping : List (Hub.Op Event) :=
  [.on .broadcastCustomResult fun e => .note e .done]

def asking : Desk Event Nat :=
  ⟨⟨Site.counting.interpreter, Site.counting.store, .after 0 eavesdropping⟩, 0, []⟩

def answer (job n : String) : Bytes :=
  (Command.response ⟨job⟩ "n" (.string n)).enveloped

/-- Of three map-reduces, the second cannot be started. Responses to all of them come in, one of
them from a single peer, and both handles end before the last one. -/
def overlapping : List (Errand Event) :=
  [.start "count" "repeat" .stream fun _ _ => .done,
    .start "count" "repeat" .stream fun _ _ => .done,
    .start "count" "repeat" .once fun value c => .note (.broadcastCustomResult value c) .done,
    .receive (.broadcast (fun _ => []) (answer "a-1" "1")),
    .receive (.broadcast (fun _ => []) (answer "a-2" "2")),
    .receive (.broadcast (fun _ => []) (answer "a-3" "3")),
    .receive (.unicast ⟨"b"⟩ (answer "a-3" "4")),
    .finish 0,
    .receive (.broadcast (fun _ => []) (answer "a-1" "5")),
    .receive (.broadcast (fun _ => []) (answer "a-3" "6")),
    .receive (.broadcast (fun _ => []) (answer "a-3" "6")),
    .finish 1,
    .receive (.broadcast (fun _ => []) (answer "a-3" "7"))]

def asked (n : Nat) : Desk Event Nat :=
  (run Site.refusingSecond (overlapping.take n) asking).2

end Desk

end PeerMesh
