import DevBoards.SuperLink.Registers

/-!
# The supervisor's SPI port and its interrupt

The data registers of SPI1, the driver's two FIFOs of 64 entries, and
`SPI1_Handler` (fpga-stm32-ifaces/firmware/super/bsp/common-vectors.cpp). The
driver `g_spi` is outside the repository: `OnIRQRxData` refuses a byte when
the receive FIFO is full.

`events` is what the server has yet to see and `queued` what the main MCU has
yet to be sent; the handler moves bytes along both and changes neither
(`spi1Handler_events`, `spi1Handler_queued`).
-/
namespace DevBoards.SuperLink

/-- What the driver's receive FIFO holds. -/
inductive Event
  | csEdge
  | byte (b : UInt8)
deriving DecidableEq, Repr

structure Spi where
  /-- `DR` when read; `SPI_RX_NOT_EMPTY` says it holds a byte. -/
  rxDr : Option UInt8
  /-- `DR` when written; `SPI_TX_EMPTY` says it holds none. -/
  txDr : Option UInt8
  rxFifo : List Event
  txFifo : List UInt8
  txeie : Bool
  overflows : UInt32
deriving DecidableEq

namespace Spi

def fifoSize : Nat := 64

def empty : Spi := ⟨none, none, [], [], false, 0⟩

def onIRQCSEdge (s : Spi) : Spi :=
  if s.rxFifo.length < fifoSize then { s with rxFifo := s.rxFifo ++ [.csEdge] } else s

/-- False when the FIFO is full. -/
def onIRQRxData (s : Spi) (b : UInt8) : Spi × Bool :=
  if s.rxFifo.length < fifoSize then ({ s with rxFifo := s.rxFifo ++ [.byte b] }, true) else (s, false)

/-- A step of `NonblockingWriteFifo`. -/
def write (s : Spi) (m : Mem) (op : Push) : Spi :=
  match op.value m with
  | some b => if s.txFifo.length < fifoSize then { s with txFifo := s.txFifo ++ [b] } else s
  | none => { s with txeie := true }

/-- The `SPI_RX_NOT_EMPTY` half of the handler. -/
def handleRx (s : Spi) : Spi :=
  match s.rxDr with
  | some b =>
    let r := { s with rxDr := none }.onIRQRxData b
    if !r.2 then { r.1 with overflows := r.1.overflows + 1 } else r.1
  | none => s

/-- The `SPI_TX_EMPTY` half of the handler. -/
def handleTx (s : Spi) : Spi :=
  match s.txDr with
  | some _ => s
  | none =>
    match s.txFifo with
    | b :: bs => { s with txDr := some b, txFifo := bs }
    | [] => { s with txeie := false }

/-- mirrors fpga-stm32-ifaces/firmware/super/bsp/common-vectors.cpp:60-76 -/
def spi1Handler (s : Spi) : Spi := s.handleRx.handleTx

/-- The main MCU clocks a byte each way. With no byte loaded it is sent
`idle`; with the last one not yet taken, the new one is lost. -/
def exchange (idle : UInt8) (s : Spi) (b : UInt8) : UInt8 × Spi :=
  (s.txDr.getD idle, { s with txDr := none, rxDr := if s.rxDr = none then some b else s.rxDr })

/-- What the server has yet to see. -/
def events (s : Spi) : List Event := s.rxFifo ++ s.rxDr.toList.map .byte

/-- What the main MCU has yet to be sent. -/
def queued (s : Spi) : List UInt8 := s.txDr.toList ++ s.txFifo

variable {s : Spi}

theorem handleRx_events (h : s.rxFifo.length < fifoSize) : s.handleRx.events = s.events := by
  unfold handleRx
  split
  · rename_i b hb
    simp [onIRQRxData, h, events, hb]
  · rfl

theorem handleRx_queued (s : Spi) : s.handleRx.queued = s.queued := by
  unfold handleRx
  split
  · by_cases h : s.rxFifo.length < fifoSize <;> simp [onIRQRxData, h, queued]
  · rfl

theorem handleTx_events (s : Spi) : s.handleTx.events = s.events := by
  unfold handleTx
  split
  · rfl
  · split <;> rfl

theorem handleTx_queued (s : Spi) : s.handleTx.queued = s.queued := by
  unfold handleTx
  split
  · rfl
  · rename_i htx
    split
    · rename_i b bs hb
      simp [queued, htx, hb]
    · rfl

theorem spi1Handler_events (h : s.rxFifo.length < fifoSize) : s.spi1Handler.events = s.events :=
  (handleTx_events _).trans (handleRx_events h)

theorem spi1Handler_queued (s : Spi) : s.spi1Handler.queued = s.queued :=
  (handleTx_queued _).trans (handleRx_queued s)

theorem write_events (m : Mem) (op : Push) : (s.write m op).events = s.events := by
  unfold write
  split
  · split <;> rfl
  · rfl

theorem write_queued (m : Mem) (op : Push) (h : s.txFifo.length < fifoSize) :
    (s.write m op).queued = s.queued ++ (op.value m).toList := by
  unfold write
  split
  · rename_i b hb
    simp [h, queued, hb]
  · rename_i hb
    simp [queued, hb]

theorem onIRQCSEdge_events (h : s.rxFifo.length < fifoSize) (hrx : s.rxDr = none) :
    s.onIRQCSEdge.events = s.events ++ [.csEdge] := by
  simp [onIRQCSEdge, h, events, hrx]

theorem onIRQCSEdge_queued (s : Spi) : s.onIRQCSEdge.queued = s.queued := by
  unfold onIRQCSEdge
  split <;> rfl

/-- The receive half leaves the transmit side alone. -/
theorem handleRx_tx (s : Spi) : s.handleRx.txFifo = s.txFifo ∧ s.handleRx.txeie = s.txeie := by
  unfold handleRx
  split
  · by_cases h : s.rxFifo.length < fifoSize <;> simp [onIRQRxData, h]
  · exact ⟨rfl, rfl⟩

/-- The transmit half disables the interrupt only with nothing to send. -/
theorem handleTx_tx (s : Spi) :
    s.handleTx.txFifo = [] ∨ (s.handleTx.txeie = s.txeie ∧ s.handleTx.txFifo <:+ s.txFifo) := by
  unfold handleTx
  split
  · exact .inr ⟨rfl, List.suffix_rfl⟩
  · split
    · rename_i b bs hb
      exact .inr ⟨rfl, hb ▸ List.suffix_cons b bs⟩
    · exact .inl ‹_›

theorem spi1Handler_tx (s : Spi) : s.spi1Handler.txFifo = [] ∨
    (s.spi1Handler.txeie = s.txeie ∧ s.spi1Handler.txFifo <:+ s.txFifo) := by
  have htx := handleTx_tx s.handleRx
  rw [(handleRx_tx s).1, (handleRx_tx s).2] at htx
  exact htx

theorem onIRQCSEdge_tx (s : Spi) :
    s.onIRQCSEdge.txFifo = s.txFifo ∧ s.onIRQCSEdge.txeie = s.txeie := by
  unfold onIRQCSEdge
  split <;> exact ⟨rfl, rfl⟩

theorem exchange_events (idle b : UInt8) (hrx : s.rxDr = none) :
    (s.exchange idle b).2.events = s.events ++ [.byte b] := by
  simp [exchange, events, hrx]

/-- A byte that is loaded is the next of those queued. -/
theorem exchange_queued (idle b : UInt8) {d : UInt8} (htx : s.txDr = some d) :
    s.queued = (s.exchange idle b).1 :: (s.exchange idle b).2.queued := by
  simp [exchange, queued, htx]

theorem exchange_queued_none (idle b : UInt8) (hq : s.queued = []) :
    (s.exchange idle b).2.queued = [] := by
  simp only [queued, List.append_eq_nil_iff] at hq ⊢
  exact ⟨rfl, hq.2⟩

end Spi
end DevBoards.SuperLink
