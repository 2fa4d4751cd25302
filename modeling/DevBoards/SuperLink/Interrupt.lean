import Mathlib.Algebra.Group.Nat.Defs
import DevBoards.Core.Interleaving
import DevBoards.Core.Machine
import DevBoards.SuperLink.Spi

/-!
# The SPI data interrupt under any interleaving

The master, the shift register, `SPI1_Handler`, the chip select interrupt and
the main loop take steps in any order; the main loop queues a reply byte by
byte and only then sets `TXEIE`. The kup-lulz supervisor has the same handler
(kup-lulz/firmware/super/bsp/common-vectors.cpp:57-76).

A `World` is the SPI port with a log of the bytes that went by. The log is
written from what the port does, and nothing reads it back.

* `Conserved`: where every byte is, on the way in and on the way out.
* `interrupt_conserves`: no byte is lost, duplicated, reordered or stranded,
  over every run.
-/
namespace DevBoards.SuperLink

namespace Spi

/-- The next event of the driver's receive FIFO. -/
def drain (s : Spi) : Option Event × Spi :=
  (s.rxFifo.head?, { s with rxFifo := s.rxFifo.tail })

/-- A byte from the master; with the last one not yet read, it is lost. -/
def arrive (s : Spi) (b : UInt8) : Spi :=
  { s with rxDr := if s.rxDr = none then some b else s.rxDr }

/-- The shift register takes the byte loaded. -/
def shift (s : Spi) : Spi := { s with txDr := none }

def push (s : Spi) (b : UInt8) : Spi :=
  if s.txFifo.length < fifoSize then { s with txFifo := s.txFifo ++ [b] } else s

def enable (s : Spi) : Spi := { s with txeie := true }

/-- `NonblockingWriteFifo` pushes its bytes, then enables the interrupt. -/
theorem write_eq (s : Spi) (m : Mem) (op : Push) :
    s.write m op = match op.value m with
      | some b => s.push b
      | none => s.enable := rfl

/-- The master clocks a byte each way. -/
theorem exchange_eq (idle : UInt8) (s : Spi) (b : UInt8) :
    (s.exchange idle b).2 = s.shift.arrive b := rfl

end Spi

def Event.byte? : Event → Option UInt8
  | .csEdge => none
  | .byte b => some b

/-- The port, and the bytes that went by. -/
structure World where
  spi : Spi
  /-- from the master, into an empty `DR` -/
  arrived : List UInt8
  /-- from `DR`, by the handler -/
  read : List UInt8
  /-- of those, what `OnIRQRxData` took -/
  accepted : List UInt8
  /-- and what it refused -/
  refused : List UInt8
  /-- from the receive FIFO, by the main loop -/
  drained : List UInt8
  /-- into the reply queue, by the main loop -/
  queued : List UInt8
  /-- to `DR`, by the handler -/
  written : List UInt8
  /-- from `DR`, by the shift register -/
  sent : List UInt8
  /-- how many bytes had been queued when an operation last completed -/
  done : Nat

namespace World

def boot : World := ⟨.empty, [], [], [], [], [], [], [], [], 0⟩

/-- The `SPI_RX_NOT_EMPTY` half of the handler. The flag is set only where
`DR` holds a byte to read. -/
def handleRx (w : World) (rxNotEmpty : Bool) : World :=
  match rxNotEmpty, w.spi.rxDr with
  | true, some b =>
    let took := (Spi.onIRQRxData { w.spi with rxDr := none } b).2
    { w with spi := w.spi.handleRx, read := w.read ++ [b],
             accepted := if took then w.accepted ++ [b] else w.accepted,
             refused := if took then w.refused else w.refused ++ [b] }
  | _, _ => w

/-- The `SPI_TX_EMPTY` half. The flag is set only where `DR` holds no byte to
send; what is written is what `DR` holds after. -/
def handleTx (w : World) (txEmpty : Bool) : World :=
  match txEmpty, w.spi.txDr with
  | true, none =>
    { w with spi := w.spi.handleTx, written := w.written ++ w.spi.handleTx.txDr.toList }
  | _, _ => w

end World

inductive Action
  | arrive (b : UInt8)
  | shift
  /-- an activation of `SPI1_Handler`, with the flags it finds in `SR` -/
  | handler (rxNotEmpty txEmpty : Bool)
  | csEdge
  | drain
  | push (b : UInt8)
  /-- the end of a `NonblockingWriteFifo` -/
  | enable

namespace World

def step (w : World) : Action → World
  | .arrive b => { w with spi := w.spi.arrive b,
                          arrived := if w.spi.rxDr = none then w.arrived ++ [b] else w.arrived }
  | .shift => { w with spi := w.spi.shift, sent := w.sent ++ w.spi.txDr.toList }
  | .handler rxNotEmpty txEmpty => (w.handleRx rxNotEmpty).handleTx txEmpty
  | .csEdge => { w with spi := w.spi.onIRQCSEdge }
  | .drain => { w with spi := w.spi.drain.2,
                       drained := w.drained ++ (w.spi.drain.1.bind Event.byte?).toList }
  | .push b =>
    { w with spi := w.spi.push b,
             queued := if w.spi.txFifo.length < Spi.fifoSize then w.queued ++ [b] else w.queued }
  | .enable => { w with spi := w.spi.enable, done := w.queued.length }

end World

def irq : Machine World Action Unit := ⟨fun w a => (w.step a, ())⟩

namespace World

variable {w : World} {b : UInt8}

/-- With every flag that can be set, an activation is `SPI1_Handler`. -/
theorem step_handler (w : World) : (w.step (.handler true true)).spi = w.spi.spi1Handler := by
  have hrx : (w.handleRx true).spi = w.spi.handleRx := by
    unfold handleRx Spi.handleRx
    cases w.spi.rxDr <;> rfl
  have htx : ∀ v : World, (v.handleTx true).spi = v.spi.handleTx := by
    intro v
    unfold handleTx Spi.handleTx
    cases v.spi.txDr <;> rfl
  exact (htx _).trans (congrArg Spi.handleTx hrx)

/-- A byte read is taken, or refused by a full FIFO. -/
theorem handleRx_cases (w : World) (rxNotEmpty : Bool) :
    w.handleRx rxNotEmpty = w ∨ ∃ b, w.spi.rxDr = some b ∧
      ((w.spi.rxFifo.length < Spi.fifoSize ∧ w.handleRx rxNotEmpty =
        { w with spi := { w.spi with rxDr := none, rxFifo := w.spi.rxFifo ++ [.byte b] },
                 read := w.read ++ [b], accepted := w.accepted ++ [b] }) ∨
      (Spi.fifoSize ≤ w.spi.rxFifo.length ∧ w.handleRx rxNotEmpty =
        { w with spi := { w.spi with rxDr := none, overflows := w.spi.overflows + 1 },
                 read := w.read ++ [b], refused := w.refused ++ [b] })) := by
  unfold handleRx
  split
  · rename_i b hb
    refine .inr ⟨b, hb, ?_⟩
    unfold Spi.handleRx Spi.onIRQRxData
    rw [hb]
    by_cases hroom : w.spi.rxFifo.length < Spi.fifoSize
    · refine .inl ⟨hroom, ?_⟩
      simp only [hroom, if_true]
      rfl
    · refine .inr ⟨Nat.le_of_not_lt hroom, ?_⟩
      simp only [hroom, if_false]
      rfl
  · exact .inl rfl

/-- The next byte is loaded, or there is none and the interrupt is turned off. -/
theorem handleTx_cases (w : World) (txEmpty : Bool) :
    w.handleTx txEmpty = w ∨ w.spi.txDr = none ∧
      ((∃ b bs, w.spi.txFifo = b :: bs ∧ w.handleTx txEmpty =
        { w with spi := { w.spi with txDr := some b, txFifo := bs },
                 written := w.written ++ [b] }) ∨
      (w.spi.txFifo = [] ∧
        w.handleTx txEmpty = { w with spi := { w.spi with txeie := false } })) := by
  unfold handleTx
  split
  · rename_i _ htx
    refine .inr ⟨htx, ?_⟩
    unfold Spi.handleTx
    rw [htx]
    cases hq : w.spi.txFifo with
    | nil => exact .inr ⟨rfl, by simp [htx, hq]⟩
    | cons b bs => exact .inl ⟨b, bs, rfl, rfl⟩
  · exact .inl rfl

/-! ## Where every byte is -/

/-- Of the bytes from the master: all that arrived were read or are in `DR`;
what was read was taken or refused; what was taken was drained or is in the
FIFO. Of the reply: all that was queued was written to `DR` or is in the FIFO;
what was written was sent or is in `DR`. -/
structure Conserved (w : World) : Prop where
  room : w.spi.rxFifo.length ≤ Spi.fifoSize
  arrived : w.arrived = w.read ++ w.spi.rxDr.toList
  read : Interleaving w.accepted w.refused w.read
  overflows : w.spi.overflows = UInt32.ofNat w.refused.length
  accepted : w.accepted = w.drained ++ w.spi.rxFifo.filterMap Event.byte?
  queued : w.queued = w.written ++ w.spi.txFifo
  written : w.written = w.sent ++ w.spi.txDr.toList
  completed : w.done ≤ w.queued.length
  live : w.spi.txeie = true ∨ w.done ≤ w.sent.length

theorem conserved_boot : boot.Conserved where
  room := Nat.zero_le _
  arrived := rfl
  read := .nil
  overflows := rfl
  accepted := rfl
  queued := rfl
  written := rfl
  completed := Nat.zero_le _
  live := .inr (Nat.zero_le _)

theorem Conserved.handleRx (h : w.Conserved) (rxNotEmpty : Bool) :
    (w.handleRx rxNotEmpty).Conserved := by
  have harrived := h.arrived
  rcases handleRx_cases w rxNotEmpty with heq | ⟨b, hb, ⟨hroom, heq⟩ | ⟨-, heq⟩⟩
  · rw [heq]
    exact h
  · rw [hb] at harrived
    rw [heq]
    refine { h with room := ?_, arrived := ?_, read := h.read.snoc_left b, accepted := ?_ }
    · rw [List.length_append]
      exact hroom
    · exact harrived.trans (List.append_nil _).symm
    · rw [List.filterMap_append, ← List.append_assoc, ← h.accepted]
      rfl
  · rw [hb] at harrived
    rw [heq]
    refine { h with arrived := ?_, read := h.read.snoc_right b, overflows := ?_ }
    · exact harrived.trans (List.append_nil _).symm
    · show w.spi.overflows + 1 = _
      rw [h.overflows, List.length_append, UInt32.ofNat_add]
      rfl

theorem Conserved.handleTx (h : w.Conserved) (txEmpty : Bool) : (w.handleTx txEmpty).Conserved := by
  have hqueued := h.queued
  have hwritten := h.written
  rcases handleTx_cases w txEmpty with heq | ⟨htx, ⟨b, bs, hq, heq⟩ | ⟨hq, heq⟩⟩
  · rw [heq]
    exact h
  · rw [htx] at hwritten
    rw [hq] at hqueued
    rw [heq]
    refine { h with queued := ?_, written := ?_ }
    · rw [hqueued, List.append_assoc]
      rfl
    · rw [hwritten, List.append_assoc]
      rfl
  · -- nothing is queued, and `DR` is empty: all that was queued is sent
    rw [htx] at hwritten
    rw [hq, List.append_nil] at hqueued
    have hsent : w.queued = w.sent := hqueued.trans (hwritten.trans (List.append_nil _))
    have hlive : w.done ≤ w.sent.length := hsent ▸ h.completed
    rw [heq]
    exact { h with live := .inr hlive }

theorem Conserved.step (h : w.Conserved) (a : Action) : (w.step a).Conserved := by
  cases a with
  | arrive b =>
    refine { h with arrived := ?_ }
    have harrived := h.arrived
    dsimp only [World.step, Spi.arrive]
    cases hrx : w.spi.rxDr with
    | none =>
      rw [hrx] at harrived
      rw [harrived, List.append_assoc]
      rfl
    | some _ => exact harrived.trans (by rw [hrx]; rfl)
  | shift =>
    refine { h with written := ?_, live := ?_ }
    · exact h.written.trans (List.append_nil _).symm
    · refine h.live.imp id fun hdone => Nat.le_trans hdone ?_
      exact (List.length_append ..).symm ▸ Nat.le_add_right _ _
  | handler rxNotEmpty txEmpty => exact (h.handleRx rxNotEmpty).handleTx txEmpty
  | csEdge =>
    show Conserved { w with spi := w.spi.onIRQCSEdge }
    unfold Spi.onIRQCSEdge
    split
    · rename_i hroom
      refine { h with room := ?_, accepted := ?_ }
      · rw [List.length_append]
        exact hroom
      · rw [h.accepted, List.filterMap_append]
        exact congrArg _ (List.append_nil _).symm
    · exact h
  | drain =>
    have haccepted := h.accepted
    have hroom := h.room
    refine { h with room := ?_, accepted := ?_ }
    · show w.spi.rxFifo.tail.length ≤ _
      rw [List.length_tail]
      omega
    · show w.accepted = w.drained ++ (w.spi.rxFifo.head?.bind Event.byte?).toList ++
        w.spi.rxFifo.tail.filterMap Event.byte?
      rw [haccepted, List.append_assoc]
      cases w.spi.rxFifo with
      | nil => rfl
      | cons e es => cases e <;> rfl
  | push b =>
    have hcompleted : w.done ≤ (w.queued ++ [b]).length :=
      (List.length_append ..).symm ▸ Nat.le_add_right_of_le h.completed
    show Conserved { w with spi := w.spi.push b, queued := if _ then _ else _ }
    unfold Spi.push
    split
    · refine { h with queued := ?_, completed := hcompleted }
      rw [h.queued, List.append_assoc]
    · exact h
  | enable => exact { h with completed := Nat.le_refl _, live := .inl rfl }

/-- `DR` is written only when it is empty and the queue is not. -/
theorem step_written (w : World) (a : Action) :
    (w.step a).written = w.written ∨ w.spi.txDr = none ∧
      ∃ b bs, w.spi.txFifo = b :: bs ∧ (w.step a).written = w.written ++ [b] := by
  cases a with
  | handler rxNotEmpty txEmpty =>
    have hrx : (w.handleRx rxNotEmpty).written = w.written ∧
        (w.handleRx rxNotEmpty).spi.txDr = w.spi.txDr ∧
          (w.handleRx rxNotEmpty).spi.txFifo = w.spi.txFifo := by
      rcases handleRx_cases w rxNotEmpty with heq | ⟨b, -, ⟨-, heq⟩ | ⟨-, heq⟩⟩ <;>
        rw [heq] <;> exact ⟨rfl, rfl, rfl⟩
    obtain ⟨hw, hdr, hfifo⟩ := hrx
    show ((w.handleRx rxNotEmpty).handleTx txEmpty).written = _ ∨ _ ∧ ∃ b bs, _ ∧
      ((w.handleRx rxNotEmpty).handleTx txEmpty).written = _
    rcases handleTx_cases (w.handleRx rxNotEmpty) txEmpty with
      heq | ⟨htx, ⟨b, bs, hq, heq⟩ | ⟨-, heq⟩⟩
    · exact .inl ((congrArg written heq).trans hw)
    · exact .inr ⟨hdr ▸ htx, b, bs, hfifo ▸ hq, by rw [heq]; exact congrArg (· ++ [b]) hw⟩
    · exact .inl (by rw [heq]; exact hw)
  | arrive | shift | csEdge | drain | push | enable => exact .inl rfl

/-- A byte is refused only by a full FIFO. -/
theorem step_refused (w : World) (a : Action) :
    (w.step a).refused = w.refused ∨ Spi.fifoSize ≤ w.spi.rxFifo.length := by
  cases a with
  | handler rxNotEmpty txEmpty =>
    have htx : ∀ v : World, (v.handleTx txEmpty).refused = v.refused := by
      intro v
      rcases handleTx_cases v txEmpty with heq | ⟨-, ⟨b, bs, -, heq⟩ | ⟨-, heq⟩⟩ <;> rw [heq]
    rcases handleRx_cases w rxNotEmpty with heq | ⟨b, -, ⟨-, heq⟩ | ⟨hfull, -⟩⟩
    · exact .inl ((htx _).trans (congrArg refused heq))
    · exact .inl ((htx _).trans (by rw [heq]))
    · exact .inr hfull
  | arrive | shift | csEdge | drain | push | enable => exact .inl rfl

end World

/-- **No byte is lost, duplicated, reordered or stranded**, over every run. -/
theorem interrupt_conserves (actions : List Action) :
    let w := irq.final World.boot actions
    Interleaving w.accepted w.refused w.read ∧
      w.spi.overflows.toNat = w.refused.length % 2 ^ 32 ∧
      irq.Along (fun w a => (w.step a).refused = w.refused ∨ w.spi.rxFifo.length = Spi.fifoSize)
        World.boot actions ∧
      w.arrived = w.read ++ w.spi.rxDr.toList ∧
      w.accepted = w.drained ++ w.spi.rxFifo.filterMap Event.byte? ∧
      w.written <+: w.queued ∧
      irq.Along (fun w a => (w.step a).written = w.written ∨ w.spi.txDr = none ∧
        ∃ b bs, w.spi.txFifo = b :: bs ∧ (w.step a).written = w.written ++ [b]) World.boot actions ∧
      (w.spi.txeie = false → w.queued.take w.done <+: w.sent) := by
  intro w
  have hrun : irq.Along (fun _ _ => True) World.boot actions :=
    irq.along_of_forall (fun _ _ _ => trivial) _
  have h : w.Conserved := irq.final_inv World.Conserved (fun _ a hw _ => hw.step a) actions _
    World.conserved_boot hrun
  have hfull : irq.Along
      (fun w a => (w.step a).refused = w.refused ∨ w.spi.rxFifo.length = Spi.fifoSize)
      World.boot actions :=
    irq.along_of_inv World.Conserved
      (fun w a _ hw => ⟨(w.step_refused a).imp id (Nat.le_antisymm hw.room), hw.step a⟩)
      World.boot World.conserved_boot
  refine ⟨h.read, ?_, hfull, h.arrived, h.accepted, ⟨_, h.queued.symm⟩,
    irq.along_of_forall (fun w a _ => w.step_written a) _, ?_⟩
  · rw [h.overflows]
    exact UInt32.toNat_ofNat'
  · intro hoff
    have hdone : w.done ≤ w.sent.length := h.live.resolve_left (by rw [hoff]; decide)
    rw [h.queued, h.written, List.append_assoc, List.take_append_of_le_length hdone]
    exact List.take_prefix _ _

end DevBoards.SuperLink
