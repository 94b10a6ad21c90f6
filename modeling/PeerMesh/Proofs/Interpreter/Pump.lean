import PeerMesh.Interpreter.Pump
import PeerMesh.Proofs.Interpreter.Inbound
import PeerMesh.Proofs.Interpreter.Outbound

namespace PeerMesh

namespace Interpreter

variable {σ : Type}

def forward (link : Link σ) (i : Interpreter) (w : σ) : Interpreter × σ :=
  match i.outbox with
  | [] => (i, w)
  | c :: rest => ({ i with outbox := rest }.sendBroadcast link c w).2

variable (i : Interpreter)

theorem sendBroadcast_outbox (link : Link σ) (outbox : List Command) (c : Command) (w : σ) :
    { i with outbox := outbox }.sendBroadcast link c w =
      ((i.sendBroadcast link c w).1, { (i.sendBroadcast link c w).2.1 with outbox := outbox },
        (i.sendBroadcast link c w).2.2) := by
  have hp : { i with outbox := outbox }.payload c = i.payload c := rfl
  rw [sendBroadcast, sendBroadcast, hp]
  cases i.payload c with
  | error e => rfl
  | ok bs =>
    dsimp only
    obtain ⟨e | u, v⟩ := link.broadcast bs i.clock.peek w
    · rfl
    · rfl

theorem flush_of_nil (link : Link σ) (w : σ) (h : i.outbox = []) : i.flush link w = (i, w) := by
  rw [flush, h, List.foldl_nil, ← h]

theorem flush_of_cons (link : Link σ) (w : σ) {c : Command} {rest : List Command}
    (h : i.outbox = c :: rest) :
    i.flush link w = (i.forward link w).1.flush link (i.forward link w).2 := by
  have hf : i.forward link w = ({ (i.sendBroadcast link c w).2.1 with outbox := rest },
      (i.sendBroadcast link c w).2.2) := by
    rw [forward, h]
    dsimp only
    rw [sendBroadcast_outbox]
  have he := i.sendBroadcast_outbox link [] c w
  rw [hf, flush, h, List.foldl_cons]
  dsimp only at he ⊢
  rw [he]
  rfl

theorem outbox_forward (link : Link σ) (w : σ) :
    (i.forward link w).1.outbox = i.outbox.tail := by
  rw [forward]
  cases h : i.outbox with
  | nil => exact h
  | cons c rest =>
    dsimp only
    rw [sendBroadcast_outbox]
    rfl

variable (link : Link σ) (w : σ × List Attempt)

theorem forward_advances :
    Advances (i.clock, w.2) (i.forward link.recorded w).1.clock
      (i.forward link.recorded w).2.2 := by
  rw [forward]
  split
  · exact .here
  · next c rest _ => exact { i with outbox := rest }.sendBroadcast_advances link w c

theorem flush_advances :
    Advances (i.clock, w.2) (i.flush link.recorded w).1.clock (i.flush link.recorded w).2.2 := by
  obtain ⟨n, hn⟩ : ∃ n, i.outbox.length = n := ⟨_, rfl⟩
  induction n generalizing i w with
  | zero =>
    rw [i.flush_of_nil link.recorded w (List.eq_nil_of_length_eq_zero hn)]
    exact .here
  | succ n ih =>
    obtain ⟨c, rest, h⟩ := List.exists_cons_of_length_eq_add_one hn
    have hlen : (i.forward link.recorded w).1.outbox.length = n := by
      rw [outbox_forward, h, List.tail_cons]
      rw [h, List.length_cons] at hn
      omega
    rw [i.flush_of_cons link.recorded w h]
    exact (i.forward_advances link w).trans (ih _ _ hlen)

theorem settle_advances :
    Advances (i.clock, w.2) (i.settle link.recorded w).1.clock
      (i.settle link.recorded w).2.2 := by
  rw [settle]
  split
  · exact i.flush_advances link w
  · exact .here

theorem run_advances :
    Advances (i.clock, w.2) (i.run link.recorded w).2.1.clock (i.run link.recorded w).2.2.2 := by
  rw [run]
  split
  · exact { i with pump := .running true true }.flush_advances link w
  · exact .here

theorem clock_setPump (p : Pump) : (i.setPump p).clock = i.clock := by
  cases p with
  | idle | running broadcast unicast | ended => rfl

end Interpreter

namespace Site

variable {ν σ : Type} (s : Site ν) (link : Link σ) (view : View) (w : σ × List Attempt)

theorem pump_advances (delivery : Delivery) :
    Advances (s.interpreter.clock, w.2)
      (s.pump link.recorded view delivery w).1.interpreter.clock
      (s.pump link.recorded view delivery w).2.2.2 := by
  unfold pump
  cases delivery with
  | broadcast arrival =>
    dsimp only
    split
    · cases arrival with
      | item payload =>
        have h := (s.receiveBroadcast view payload).2.1.interpreter.settle_advances link w
        rw [(s.receiveBroadcast_resembles view payload).clock] at h
        exact h
      | closed | failed e =>
        dsimp only
        rw [Interpreter.clock_setPump]
        exact .here
    · exact .here
  | unicast arrival =>
    dsimp only
    split
    · cases arrival with
      | item m =>
        obtain ⟨sender, payload⟩ := m
        dsimp only
        rw [s.receiveUnicast_interpreter sender payload]
        exact s.interpreter.settle_advances link w
      | closed | failed e =>
        dsimp only
        rw [Interpreter.clock_setPump]
        exact .here
    · exact .here

end Site

end PeerMesh
