import Mathlib.Data.Fin.VecNotation
import DevBoards.Core.Machine
import DevBoards.Hw.Gpio

/-!
# The quad-relay-mux board

What the firmware acts on: eight coil outputs, four latching relays, eight
LEDs behind a TCA6424A expander, the four `m_select` and the SCPI client. An
`Op` is one write, sleep or print of the firmware; the code's functions are
lists of them, so a run passes through every intermediate state.

The expander and the relays are outside the repository. While its reset pin is
low the expander forgets all: inputs, output registers set. A latching relay
moves to the side of the one coil that is energised, and holds otherwise.
-/
namespace DevBoards.RelayMux

/-- mirrors quad-relay-mux/firmware/bsp/hwinit.cpp:93-106 -/
def relayA : Fin 4 → Pin := ![⟨.gpioA, 0⟩, ⟨.gpioA, 4⟩, ⟨.gpioA, 6⟩, ⟨.gpioB, 0⟩]

def relayB : Fin 4 → Pin := ![⟨.gpioA, 1⟩, ⟨.gpioA, 5⟩, ⟨.gpioA, 7⟩, ⟨.gpioB, 1⟩]

/-- mirrors quad-relay-mux/firmware/bsp/hwinit.cpp:75-88 -/
def muxledA : Fin 4 → Fin 24 := ![22, 20, 18, 16]

def muxledB : Fin 4 → Fin 24 := ![23, 21, 19, 17]

/-- mirrors quad-relay-mux/firmware/bsp/hwinit.cpp:70 -/
def expanderReset : Pin := ⟨.gpioC, 14⟩

inductive Side | a | b
deriving DecidableEq, Repr

/-- `TCA6424A`: the direction and output registers. -/
structure Expander where
  isInput : Fin 24 → Bool
  output : Fin 24 → Bool

def Expander.cleared : Expander := ⟨fun _ => true, fun _ => true⟩

structure St where
  gpio : Levels
  expander : Expander
  relay : Fin 4 → Side
  select : Fin 4 → Bool

/-- One step of the firmware. -/
inductive Op
  /-- `pin = level` on a `GPIOPin` -/
  | gpio (pin : Pin) (level : Bool)
  /-- `SetDirection` on a `TCA6424A_GPIO` -/
  | setDirection (led : Fin 24) (input : Bool)
  /-- `led = level` on a `TCA6424A_GPIO` -/
  | led (led : Fin 24) (level : Bool)
  /-- `m_select[chan] = sel` -/
  | select (chan : Fin 4) (sel : Bool)
  /-- `g_logTimer.Sleep(ticks)` -/
  | sleep (ticks : Nat)
  /-- `m_device->Printf` -/
  | print (text : String)

/-- The coil outputs: the A and B coils of each channel. -/
def coil : Side → Fin 4 → Pin
  | .a => relayA
  | .b => relayB

def settle (gpio : Levels) (relay : Fin 4 → Side) (n : Fin 4) : Side :=
  if gpio (coil .a n) && !gpio (coil .b n) then .a
  else if gpio (coil .b n) && !gpio (coil .a n) then .b
  else relay n

/-- The output is the text printed. -/
def exec (s : St) : Op → St × Option String
  | .gpio pin level =>
      let gpio := s.gpio.drive pin level
      ({ s with gpio := gpio, relay := settle gpio s.relay,
                expander := if gpio expanderReset then s.expander else .cleared }, none)
  | .setDirection led input =>
      ({ s with expander := { s.expander with isInput := Function.update s.expander.isInput led input } }, none)
  | .led led level =>
      ({ s with expander := { s.expander with output := Function.update s.expander.output led level } }, none)
  | .select chan sel => ({ s with select := Function.update s.select chan sel }, none)
  | .sleep _ => (s, none)
  | .print text => (s, some text)

def board : Machine St Op (Option String) := ⟨exec⟩

/-- After reset the outputs are low; relays latch, and the rest is arbitrary. -/
def powerOn (expander : Expander) (relay : Fin 4 → Side) (select : Fin 4 → Bool) : St :=
  ⟨fun _ => false, expander, relay, select⟩

/-- An LED is lit when its channel is an output and set. -/
def St.lit (s : St) (led : Fin 24) : Bool := !s.expander.isInput led && s.expander.output led

def St.energised (s : St) (side : Side) (n : Fin 4) : Bool := s.gpio (coil side n)

/-- At most one of the eight coils is energised. -/
def AtMostOneCoil (s : St) : Prop :=
  ∀ side n side' n', s.energised side n = true → s.energised side' n' = true →
    side = side' ∧ n = n'

/-- No coil is energised. -/
def NoCoil (s : St) : Prop := ∀ side n, s.energised side n = false

theorem coil_inj {side side' : Side} {n n' : Fin 4} (h : coil side n = coil side' n') :
    side = side' ∧ n = n' := by
  revert h
  cases side <;> cases side' <;> revert n n' <;> decide

theorem coil_ne_reset (side : Side) (n : Fin 4) : expanderReset ≠ coil side n := by
  cases side <;> revert n <;> decide

end DevBoards.RelayMux
