import DevBoards.Core.System
import DevBoards.SuperLink.Spi

/-!
# The main MCU and the supervisor as one system

`ReadSupervisorRegister` on the main MCU, the supervisor's main loop and
`SPI1_Handler`, interleaved a step at a time in any order. `OnCommand` is not
one step: it queues its bytes one by one, and the interrupt may come between
any two.

`SPIServer::Poll` is outside the repository: it calls `OnCommand` with the
first byte after each chip-select edge and ignores the bytes after it. So is
the timing of the two sides, which is what `Timely` says of a run.
-/
namespace DevBoards.SuperLink

/-- Where the main MCU is in `ReadSupervisorRegister`. -/
inductive Phase
  | idle
  /-- Chip select is low. -/
  | selected (r : Sensor)
  /-- The command has been sent, and `got` read back. -/
  | reading (r : Sensor) (got : List UInt8)
deriving DecidableEq

structure St where
  mem : Mem
  spi : Spi
  /-- The server takes the next byte for a command. -/
  awaiting : Bool
  /-- What is left of `OnCommand`. -/
  todo : List Push
  phase : Phase
deriving DecidableEq

def boot (m : Mem) : St := ⟨m, .empty, false, [], .idle⟩

inductive Label
  /-- `g_superCS_n = 0` -/
  | begin (r : Sensor)
  /-- `BlockingWrite(regid)`, `WaitForWrites`, `DiscardRxData` -/
  | send
  /-- `BlockingRead` -/
  | read
  /-- `g_superCS_n = 1; return ret` -/
  | finish (ret : UInt16)
  /-- an activation of `SPI1_Handler` -/
  | handler
  /-- `spiserver.Poll` handles one pending event -/
  | poll
  /-- `OnCommand` takes its next step -/
  | push
  /-- `PollIBCSensors` -/
  | pollIBCSensors (sensors : Sensors)
deriving DecidableEq

variable (ids : RegIds) (idle : UInt8)

/-- mirrors fpga-stm32-ifaces/firmware/main/bsp/hwinit.cpp:898-918 -/
def readSupervisorRegister (s : St) : Label → Option St
  | .begin r =>
    match s.phase with
    | .idle => some { s with phase := .selected r, spi := s.spi.onIRQCSEdge }
    | _ => none
  | .send =>
    match s.phase with
    | .selected r =>
      some { s with phase := .reading r [], spi := (s.spi.exchange idle (ids.code (.sensor r))).2 }
    | _ => none
  | .read =>
    match s.phase with
    | .reading r got =>
      if got.length < 3 then
        let x := s.spi.exchange idle 0
        some { s with phase := .reading r (got ++ [x.1]), spi := x.2 }
      else none
    | _ => none
  | .finish ret =>
    match s.phase with
    | .reading _ [_, lo, hi] => if ret = word lo hi then some { s with phase := .idle } else none
    | _ => none
  | _ => none

/-- The event goes to the server.
mirrors fpga-stm32-ifaces/firmware/super/main/mainloop.cpp:157 -/
def poll (s : St) : Option St :=
  match s.spi.rxFifo with
  | .csEdge :: es => some { s with spi := { s.spi with rxFifo := es }, awaiting := true }
  | .byte b :: es =>
    let s := { s with spi := { s.spi with rxFifo := es } }
    some (if s.awaiting then { s with awaiting := false, todo := onCommand ids b } else s)
  | [] => none

/-- The main loop does nothing else until `OnCommand` is through. -/
def step (s : St) : Label → Option St
  | .handler => some { s with spi := s.spi.spi1Handler }
  | .poll => if s.todo = [] then poll ids s else none
  | .push =>
    match s.todo with
    | op :: ops => some { s with spi := s.spi.write s.mem op, todo := ops }
    | [] => none
  | .pollIBCSensors sensors =>
    if s.todo = [] then some { s with mem := { s.mem with toSensors := sensors } } else none
  | l => readSupervisorRegister ids idle s l

def link : System St Label := ⟨step ids idle⟩

/-- `SPI1_Handler` has nothing to do: no byte waits in `DR`, and if the
transmit interrupt is enabled, one waits to be clocked out. -/
def Spi.Served (s : Spi) : Prop := s.rxDr = none ∧ (s.txeie = true → s.txDr.isSome)

instance (s : Spi) : Decidable s.Served := inferInstanceAs (Decidable (_ ∧ _))

/-- `Sleep(2)` comes before the next byte. -/
def Phase.sleeps : Phase → Bool
  | .reading _ [] => true
  | _ => false

/-- The supervisor keeps up with the bus: the last byte has been taken from
`DR` when the main MCU acts, the interrupt has run by the time it clocks a
byte of the reply, and `Sleep(2)` is long enough for the main loop to get
through its events and its command. That there is a reply is not part of it. -/
def Timely (s : St) (l : Label) (_ : St) : Prop :=
  match l with
  | .begin _ | .send => s.spi.rxDr = none
  | .read => s.spi.Served ∧ (s.phase.sleeps = true → s.spi.rxFifo = [] ∧ s.todo = [])
  | _ => True

instance (s : St) (l : Label) (s' : St) : Decidable (Timely s l s') := by
  unfold Timely
  split <;> exact inferInstance

/-- The bytes of the reply that the main MCU has not been sent. -/
def St.replies (s : St) : List UInt8 := s.spi.queued ++ pushed s.mem s.todo

end DevBoards.SuperLink
