import Mathlib.Data.List.FinRange
import DevBoards.Core.Machine
import DevBoards.Core.Serial

/-!
# The RGB chain of the christmas tree

`RefreshRGB` (christmas-tree/firmware/LEDTask.cpp) sends eight colours to a
chain of LEDs by writing `GPIOA.BSRR` and waiting with NOPs. An `Instr` is one
such step; the code's functions are lists of them. The chain reads a pulse as a
1 or a 0 by its width.

* `sendBitbangRGB_eq`: a colour is sent as its low 24 bits, MSB first.
* `refreshRGB_round_trip`: the chain gets the eight colours, with interrupts
  off and no other pin of the port touched.
-/
namespace DevBoards.Tree

inductive Instr
  | disableInterrupts
  | enableInterrupts
  /-- `GPIOA.BSRR = v` -/
  | bsrr (v : BitVec 32)
  | nop
deriving DecidableEq

/-! ## The code -/

/-! mirrors christmas-tree/firmware/LEDTask.h:36-46 -/

def NOP : List Instr := [.nop]
def NOP2 : List Instr := NOP ++ NOP
def NOP4 : List Instr := NOP ++ NOP ++ NOP ++ NOP
def NOP5 : List Instr := NOP ++ NOP ++ NOP ++ NOP ++ NOP
def NOP6 : List Instr := NOP5 ++ NOP
def NOP10 : List Instr := NOP5 ++ NOP5
def NOP19 : List Instr := NOP10 ++ NOP5 ++ NOP4
def NOP22 : List Instr := NOP10 ++ NOP10 ++ NOP2

/-- mirrors christmas-tree/firmware/LEDTask.h:95-96 -/
def setLEDCtrlHigh : List Instr := [.bsrr 0x400]

/-- mirrors christmas-tree/firmware/LEDTask.h:98-99 -/
def setLEDCtrlLow : List Instr := [.bsrr 0x4000000]

/-- mirrors christmas-tree/firmware/LEDTask.h:101-108 -/
def sendBitbang1 : List Instr := setLEDCtrlHigh ++ NOP22 ++ setLEDCtrlLow ++ NOP4

/-- mirrors christmas-tree/firmware/LEDTask.h:110-117 -/
def sendBitbang0 : List Instr := setLEDCtrlHigh ++ NOP6 ++ setLEDCtrlLow ++ NOP19

/-- mirrors christmas-tree/firmware/LEDTask.h:119-125 -/
def sendBitbangBit (b : Bool) : List Instr := if b then sendBitbang1 else sendBitbang0

/-- `for(; mask != 0; mask >>= 1)` -/
def sendFrom (rgb mask : BitVec 32) : List Instr :=
  if mask = 0#32 then [] else sendBitbangBit ((rgb &&& mask) == mask) ++ sendFrom rgb (mask >>> 1)
termination_by mask.toNat
decreasing_by
  rename_i h
  have hpos : mask.toNat ≠ 0 := fun h0 => h (BitVec.eq_of_toNat_eq h0)
  rw [BitVec.toNat_ushiftRight, Nat.shiftRight_eq_div_pow]
  omega

/-- mirrors christmas-tree/firmware/LEDTask.cpp:133-138 -/
def sendBitbangRGB (rgb : BitVec 32) : List Instr := sendFrom rgb 0x800000

/-- mirrors christmas-tree/firmware/LEDTask.cpp:121-131 -/
def refreshRGB (colors : Fin 8 → BitVec 32) : List Instr :=
  [Instr.disableInterrupts] ++
    (List.finRange 8).flatMap (fun i => sendBitbangRGB (colors i) ++ NOP10) ++
    [Instr.enableInterrupts]

/-! ## The port and the chain -/

/-- The output register of GPIOA, and whether interrupts are enabled. -/
structure PortA where
  odr : BitVec 16
  interrupts : Bool

/-- A write to `BSRR` resets the bits of its upper half, then sets those of its lower. -/
def PortA.step (s : PortA) : Instr → PortA
  | .disableInterrupts => { s with interrupts := false }
  | .enableInterrupts => { s with interrupts := true }
  | .bsrr v => { s with odr := s.odr &&& ~~~ (v >>> 16).setWidth 16 ||| v.setWidth 16 }
  | .nop => s

def gpioA : Machine PortA Instr Unit := ⟨fun s i => (s.step i, ())⟩

def Instr.bsrr? : Instr → Option (BitVec 32)
  | .bsrr v => some v
  | _ => none

/-- The width of each pulse on PA10: the NOPs between a set of bit 10 and the
next reset. `high` is the width so far of a pulse under way. -/
def widths (high : Option Nat) : List Instr → List Nat
  | [] => []
  | .nop :: is => widths (high.map (· + 1)) is
  | .bsrr v :: is =>
    match high with
    | none => widths (if v.getLsbD 10 then some 0 else none) is
    | some n => if v.getLsbD 26 && !v.getLsbD 10 then n :: widths none is else widths high is
  | .disableInterrupts :: is => widths high is
  | .enableInterrupts :: is => widths high is

/-- How the chain reads a pulse. -/
def bit? (width : Nat) : Option Bool :=
  if width = 22 then some true else if width = 6 then some false else none

/-! ## Encoding -/

def width (b : Bool) : Nat := if b then 22 else 6

theorem bit?_width (b : Bool) : bit? (width b) = some b := by cases b <;> rfl

theorem twoPow_shift (k : Nat) (h : k + 1 < 32) :
    BitVec.twoPow 32 (k + 1) >>> 1 = BitVec.twoPow 32 k := by
  apply BitVec.eq_of_getLsbD_eq
  intro i hi
  rw [BitVec.getLsbD_ushiftRight, BitVec.getLsbD_twoPow, BitVec.getLsbD_twoPow]
  simp only [h, show k < 32 by omega, decide_true, Bool.true_and]
  exact decide_eq_decide.mpr (by omega)

/-- The loop tests the bits from `k` down, and ends on a mask of 0. -/
theorem sendFrom_twoPow (rgb : BitVec 32) (k : Nat) (h : k < 32) :
    sendFrom rgb (BitVec.twoPow 32 k) =
      ((List.range (k + 1)).map fun j => rgb.getLsbD (k - j)).flatMap sendBitbangBit := by
  induction k with
  | zero =>
    rw [sendFrom, if_neg (Serial.twoPow_ne_zero h), Serial.and_bit_eq rgb 0 h, sendFrom]
    rfl
  | succ k ih =>
    have hrange : List.range (k + 1 + 1) = 0 :: (List.range (k + 1)).map Nat.succ :=
      List.range_succ_eq_map
    have hshift : (fun j => rgb.getLsbD (k + 1 - j)) ∘ Nat.succ = fun j => rgb.getLsbD (k - j) :=
      funext fun j => congrArg rgb.getLsbD (by omega)
    rw [sendFrom, if_neg (Serial.twoPow_ne_zero h), Serial.and_bit_eq rgb (k + 1) h,
      twoPow_shift k h, ih (by omega), hrange, List.map_cons, List.flatMap_cons, List.map_map,
      hshift]
    rfl

/-- **A colour** is sent as its low 24 bits, MSB first. -/
theorem sendBitbangRGB_eq (rgb : BitVec 32) :
    sendBitbangRGB rgb = (Serial.msbBits (rgb.setWidth 24)).flatMap sendBitbangBit := by
  have hmask : (0x800000 : BitVec 32) = BitVec.twoPow 32 23 := by decide
  unfold sendBitbangRGB
  rw [hmask, sendFrom_twoPow rgb 23 (by decide)]
  congr 1
  apply List.map_congr_left
  intro j hj
  have hlt := List.mem_range.mp hj
  rw [BitVec.getMsbD_eq_getLsbD, BitVec.getLsbD_setWidth]
  simp [hlt, show 23 - j < 24 by omega]

/-- All the bits sent. -/
def sent (colors : Fin 8 → BitVec 32) : List Bool :=
  (List.finRange 8).flatMap fun i => Serial.msbBits ((colors i).setWidth 24)

/-- The chain tells the eight colours apart. -/
theorem words_sent (colors : Fin 8 → BitVec 32) :
    (sent colors).length = 192 ∧
      Serial.words 8 (sent colors) = (List.finRange 8).map fun i => (colors i).setWidth 24 := by
  have hsent : sent colors =
      ((List.finRange 8).map fun i => (colors i).setWidth 24).flatMap Serial.msbBits :=
    (List.flatMap_map ..).symm
  have hlen : ((List.finRange 8).map fun i => (colors i).setWidth 24).length = 8 := by
    rw [List.length_map, List.length_finRange]
  constructor
  · rw [sent, List.length_flatMap]
    simp
  · have hwords := Serial.words_flatMap ((List.finRange 8).map fun i => (colors i).setWidth 24)
    rw [hlen] at hwords
    exact hsent ▸ hwords

/-! ## Pulses -/

theorem widths_bit (b : Bool) (is : List Instr) :
    widths none (sendBitbangBit b ++ is) = width b :: widths none is := by cases b <;> rfl

theorem widths_bits (bs : List Bool) (is : List Instr) :
    widths none (bs.flatMap sendBitbangBit ++ is) = bs.map width ++ widths none is := by
  induction bs with
  | nil => rfl
  | cons b bs ih =>
    rw [List.flatMap_cons, List.append_assoc, widths_bit, ih]
    rfl

theorem bsrr_bit (b : Bool) :
    (sendBitbangBit b).filterMap Instr.bsrr? = [0x400#32, 0x4000000#32] := by
  cases b <;> rfl

theorem bsrr_bits (bs : List Bool) : (bs.flatMap sendBitbangBit).filterMap Instr.bsrr? =
    (List.replicate bs.length [0x400#32, 0x4000000#32]).flatten := by
  induction bs with
  | nil => rfl
  | cons b bs ih =>
    rw [List.flatMap_cons, List.filterMap_append, bsrr_bit, ih]
    rfl

/-- The colours from the first of `leds` on. -/
theorem widths_leds (colors : Fin 8 → BitVec 32) (leds : List (Fin 8)) (is : List Instr) :
    widths none (leds.flatMap (fun i => sendBitbangRGB (colors i) ++ NOP10) ++ is) =
      (leds.flatMap fun i => Serial.msbBits ((colors i).setWidth 24)).map width ++
        widths none is := by
  induction leds with
  | nil => rfl
  | cons i leds ih =>
    rw [List.flatMap_cons, List.flatMap_cons, sendBitbangRGB_eq, List.append_assoc,
      List.append_assoc, widths_bits, List.map_append, List.append_assoc, ← ih]
    rfl

theorem bsrr_leds (colors : Fin 8 → BitVec 32) (leds : List (Fin 8)) :
    (leds.flatMap fun i => sendBitbangRGB (colors i) ++ NOP10).filterMap Instr.bsrr? =
      (List.replicate (24 * leds.length) [0x400#32, 0x4000000#32]).flatten := by
  induction leds with
  | nil => rfl
  | cons i leds ih =>
    have hnop : NOP10.filterMap Instr.bsrr? = [] := rfl
    rw [List.flatMap_cons, List.filterMap_append, List.filterMap_append, sendBitbangRGB_eq,
      bsrr_bits, Serial.length_msbBits, ih, hnop, List.append_nil, ← List.flatten_append,
      ← List.replicate_add, List.length_cons, Nat.mul_succ, Nat.add_comm]

/-! ## The port -/

/-- What every instruction of a refresh leaves alone: with interrupts off, all
bits but PA10's. -/
def Frame (s : PortA) (i : Instr) : Prop :=
  (i ≠ .disableInterrupts → s.interrupts = false) ∧
    ∀ b ≠ 10, (s.step i).odr.getLsbD b = s.odr.getLsbD b

/-- An instruction of a pulse. -/
def Tame (i : Instr) : Prop := i = .nop ∨ i = .bsrr 0x400 ∨ i = .bsrr 0x4000000

theorem tame_bit (b : Bool) : ∀ i ∈ sendBitbangBit b, Tame i := by
  unfold Tame
  cases b <;> decide

theorem tame_rgb (rgb : BitVec 32) : ∀ i ∈ sendBitbangRGB rgb ++ NOP10, Tame i := by
  have hnop : ∀ i ∈ NOP10, Tame i := by
    unfold Tame
    decide
  intro i hi
  rcases List.mem_append.mp hi with hi | hi
  · rw [sendBitbangRGB_eq] at hi
    obtain ⟨b, -, hb⟩ := List.mem_flatMap.mp hi
    exact tame_bit b i hb
  · exact hnop i hi

variable {s : PortA} {i : Instr}

theorem odr_bsrr (s : PortA) (v : BitVec 32) {b : Nat} (hb : b < 16) :
    (s.step (.bsrr v)).odr.getLsbD b = (s.odr.getLsbD b && !v.getLsbD (16 + b) || v.getLsbD b) := by
  show (s.odr &&& ~~~ (v >>> 16).setWidth 16 ||| v.setWidth 16).getLsbD b = _
  simp [hb]

theorem frame_bsrr {v : BitVec 32} (hs : s.interrupts = false)
    (hv : ∀ b < 16, b ≠ 10 → v.getLsbD (16 + b) = false ∧ v.getLsbD b = false) :
    Frame s (.bsrr v) := by
  refine ⟨fun _ => hs, ?_⟩
  intro b hb
  by_cases hlt : b < 16
  · obtain ⟨hreset, hset⟩ := hv b hlt hb
    rw [odr_bsrr s v hlt, hreset, hset, Bool.or_false]
    exact Bool.and_true _
  · rw [BitVec.getLsbD_of_ge _ _ (Nat.not_lt.mp hlt), BitVec.getLsbD_of_ge _ _ (Nat.not_lt.mp hlt)]

theorem tame_step (hi : Tame i) (hs : s.interrupts = false) :
    Frame s i ∧ (s.step i).interrupts = false := by
  rcases hi with rfl | rfl | rfl
  · exact ⟨⟨fun _ => hs, fun _ _ => rfl⟩, hs⟩
  · exact ⟨frame_bsrr hs (by decide), hs⟩
  · exact ⟨frame_bsrr hs (by decide), hs⟩

theorem final_nops (s : PortA) (n : Nat) : gpioA.final s (List.replicate n .nop) = s := by
  induction n with
  | zero => rfl
  | succ n ih => exact ih

/-- A colour leaves interrupts off and the line low. -/
theorem final_rgb (hs : s.interrupts = false) (rgb : BitVec 32) :
    (gpioA.final s (sendBitbangRGB rgb ++ NOP10)).interrupts = false ∧
      (gpioA.final s (sendBitbangRGB rgb ++ NOP10)).odr.getLsbD 10 = false := by
  have hoff : ∀ is s, (∀ i ∈ is, Tame i) → s.interrupts = false →
      (gpioA.final s is).interrupts = false := fun is s htame hs =>
    gpioA.final_inv (Q := fun _ i => Tame i) (·.interrupts = false)
      (fun s i hs hi => (tame_step hi hs).2) is s hs (gpioA.along_of_forall (fun _ => htame) s)
  refine ⟨hoff _ s (tame_rgb rgb) hs, ?_⟩
  -- the last bit ends on a reset and NOPs
  have hbits : ∃ bs b, Serial.msbBits (rgb.setWidth 24) = bs ++ [b] := by
    rcases List.eq_nil_or_concat (Serial.msbBits (rgb.setWidth 24)) with h | ⟨bs, b, h⟩
    · exact absurd (congrArg List.length h) (by rw [Serial.length_msbBits]; decide)
    · exact ⟨bs, b, by rw [h, List.concat_eq_append]⟩
  obtain ⟨bs, b, hbits⟩ := hbits
  have hbit : ∃ m n, sendBitbangBit b ++ NOP10 =
      [Instr.bsrr 0x400] ++ List.replicate m Instr.nop ++ [Instr.bsrr 0x4000000] ++
        List.replicate n Instr.nop := by
    cases b
    · exact ⟨6, 29, rfl⟩
    · exact ⟨22, 14, rfl⟩
  obtain ⟨m, n, hbit⟩ := hbit
  rw [sendBitbangRGB_eq, hbits, List.flatMap_append, List.flatMap_singleton, List.append_assoc,
    hbit]
  simp only [Machine.final_append, final_nops]
  exact (odr_bsrr _ 0x4000000#32 (by decide)).trans (by simp)

/-- **The eight colours reach the chain**: `BSRR` is written 192 pulses on
PA10, and nothing else; their widths are bits, and these the low 24 bits of
the colours, MSB first. The other bits of the port do not change, interrupts
are off at every instruction but the first, which turns them off, and at the
end the line is low and interrupts are on. -/
theorem refreshRGB_round_trip (colors : Fin 8 → BitVec 32) (s : PortA) :
    let is := refreshRGB colors
    is.filterMap Instr.bsrr? = (List.replicate 192 [0x400#32, 0x4000000#32]).flatten ∧
      (∃ bits, (widths none is).map bit? = bits.map some ∧ bits.length = 192 ∧
        Serial.words 8 bits = (List.finRange 8).map fun i => (colors i).setWidth 24) ∧
      gpioA.Along Frame s is ∧
      (gpioA.final s is).odr.getLsbD 10 = false ∧ (gpioA.final s is).interrupts = true := by
  obtain ⟨hlen, hwords⟩ := words_sent colors
  have hloop := gpioA.loop_inv (Q := Frame) (·.interrupts = false)
    (fun _ s => s.odr.getLsbD 10 = false) (fun i => sendBitbangRGB (colors i) ++ NOP10)
    (fun i s hs => by
      obtain ⟨hoff, hlow⟩ := final_rgb hs (colors i)
      have halong := gpioA.along_of_inv (Q := Frame) (·.interrupts = false)
        (fun s j hj hs => tame_step (tame_rgb (colors i) j hj) hs) s hs
      exact ⟨halong, hoff, hlow, fun _ _ => hlow⟩)
    (List.finRange 8) { s with interrupts := false } rfl
  obtain ⟨halong, hoff, hlow, -⟩ := hloop
  have hstart : gpioA.final s [.disableInterrupts] = { s with interrupts := false } := rfl
  have hpulses : widths none (refreshRGB colors) = (sent colors).map width := by
    rw [refreshRGB, List.append_assoc, List.singleton_append, widths, widths_leds]
    exact List.append_nil _
  have hfinal : gpioA.final s (refreshRGB colors) = { gpioA.final { s with interrupts := false }
      ((List.finRange 8).flatMap fun i => sendBitbangRGB (colors i) ++ NOP10) with
        interrupts := true } := by
    rw [refreshRGB, Machine.final_append, Machine.final_append, hstart]
    rfl
  refine ⟨?_, ⟨sent colors, ?_, hlen, hwords⟩, ?_, ?_, ?_⟩
  · have hdisable : [Instr.disableInterrupts].filterMap Instr.bsrr? = [] := rfl
    have henable : [Instr.enableInterrupts].filterMap Instr.bsrr? = [] := rfl
    rw [refreshRGB, List.filterMap_append, List.filterMap_append, bsrr_leds, List.length_finRange,
      hdisable, henable, List.nil_append, List.append_nil]
  · rw [hpulses, List.map_map]
    exact List.map_congr_left fun b _ => bit?_width b
  · rw [refreshRGB, Machine.along_append, Machine.along_append, Machine.final_append, hstart]
    exact ⟨⟨⟨⟨fun h => absurd rfl h, fun _ _ => rfl⟩, trivial⟩, halong⟩,
      ⟨fun _ => hoff, fun _ _ => rfl⟩, trivial⟩
  · rw [hfinal]
    exact hlow 0 (List.mem_finRange 0)
  · rw [hfinal]

end DevBoards.Tree
