import Mathlib.Algebra.Group.Nat.Defs
import Mathlib.Data.List.FinRange
import Mathlib.Logic.Equiv.Defs
import Mathlib.Logic.Function.Iterate
import DevBoards.Core.Machine

/-!
# The LED task of the christmas tree

`LEDTask` (christmas-tree/firmware/LEDTask.cpp): the pattern selected, the
generator and what the last `OnTimer` computed for the LEDs. `m_step`, which
nothing uses, is left out; `RefreshRGB` is `Tree.Bitbang`.

`RandomBit` is called several times in one expression, in an order that the
language leaves to the compiler; an `EvalOrder` is the compiler's choice.

* `orBits_spec`: the value of such an expression, from the bits drawn.
* `modeRandom_spec`: what a random tick shows, and the 34 bits it draws.
* `onTimer_display`: what `OnTimer` puts out in each mode.
-/
namespace DevBoards.Tree
open Equiv (Perm)

/-! ## Patterns

`pattern_t` is the byte that is stored for it.
mirrors christmas-tree/firmware/LEDTask.h:57-66 -/

def PATTERN_RANDOM : UInt8 := 0

def PATTERN_RED : UInt8 := 1

def PATTERN_GREEN : UInt8 := 2

def PATTERN_RED_GREEN : UInt8 := 3

inductive Mode | random | red | green | redGreen
deriving DecidableEq, Repr

/-- The `switch` of `OnTimer`.
mirrors christmas-tree/firmware/LEDTask.cpp:153-171 -/
def mode (pattern : UInt8) : Mode :=
  if pattern = PATTERN_RED then .red
  else if pattern = PATTERN_GREEN then .green
  else if pattern = PATTERN_RED_GREEN then .redGreen
  else .random

@[ext] structure LEDTask where
  pattern : UInt8
  prbs : BitVec 32
  redPattern : UInt8
  greenPattern : UInt8
  rgbColors : Fin 8 → BitVec 32

/-- `stored` is the byte read from flash; `m_rgbColors` is not initialised.
mirrors christmas-tree/firmware/LEDTask.cpp:34-63 -/
def construct (rgbColors : Fin 8 → BitVec 32) (stored : UInt8) : LEDTask :=
  ⟨stored, 1, 0, 0, rgbColors⟩

/-! ## The generator -/

/-- mirrors christmas-tree/firmware/LEDTask.cpp:69-74 -/
def randomBit (prbs : BitVec 32) : Bool × BitVec 32 :=
  let next := ((prbs >>> 14) ^^^ (prbs >>> 13)) &&& 1
  (next != 0, (prbs <<< 1) ||| next)

/-- Successive calls of `RandomBit`. -/
def randomBits : Nat → BitVec 32 → List Bool × BitVec 32
  | 0, prbs => ([], prbs)
  | n + 1, prbs =>
    let first := randomBit prbs
    let rest := randomBits n first.2
    (first.1 :: rest.1, rest.2)

/-- When the calls of each expression are made: `π j` is the place in time of
the one that is shifted left by `j`. -/
structure EvalOrder where
  red : Perm (Fin 5)
  green : Perm (Fin 5)
  color : Fin 8 → Perm (Fin 3)

/-- `(b (n - 1) << (n - 1)) | ... | (b 1 << 1) | b 0` -/
def orShifted {n : Nat} (b : Fin n → Bool) : Nat :=
  (List.finRange n).foldr (fun j acc => acc ||| (b j).toNat <<< (j : Nat)) 0

/-- `(RandomBit() << (n - 1)) | ... | (RandomBit() << 1) | RandomBit()` -/
def orBits (n : Nat) (π : Perm (Fin n)) (prbs : BitVec 32) : Nat × BitVec 32 :=
  let draws := randomBits n prbs
  (orShifted fun j => draws.1.getD (π j) false, draws.2)

/-- mirrors christmas-tree/firmware/LEDTask.cpp:79-89 -/
def colors : List (BitVec 32) :=
  [0x200000, 0x201000, 0x202000, 0x002000, 0x002020, 0x200020, 0x100020, 0x202020]

/-- mirrors christmas-tree/firmware/LEDTask.cpp:76-97 -/
def randomColor (π : Perm (Fin 3)) (prbs : BitVec 32) : BitVec 32 × BitVec 32 :=
  let index := orBits 3 π prbs
  (colors.getD index.1 0, index.2)

/-! ## OnTimer -/

/-- `m_rgbColors[i] = RandomColor();` -/
def setColor (σ : EvalOrder) (t : LEDTask) (i : Fin 8) : LEDTask :=
  let color := randomColor (σ.color i) t.prbs
  { t with prbs := color.2, rgbColors := Function.update t.rgbColors i color.1 }

/-- mirrors christmas-tree/firmware/LEDTask.cpp:181-200 -/
def onTimer_ModeRandom (σ : EvalOrder) (t : LEDTask) : LEDTask :=
  let red := orBits 5 σ.red t.prbs
  let green := orBits 5 σ.green red.2
  (List.finRange 8).foldl (setColor σ)
    { t with prbs := green.2, redPattern := UInt8.ofNat red.1, greenPattern := UInt8.ofNat green.1 }

/-- mirrors christmas-tree/firmware/LEDTask.cpp:202-213 -/
def onTimer_ModeRed (t : LEDTask) : LEDTask :=
  { t with redPattern := 0x1f, greenPattern := 0, rgbColors := fun _ => 0x1f0000 }

/-- mirrors christmas-tree/firmware/LEDTask.cpp:215-226 -/
def onTimer_ModeGreen (t : LEDTask) : LEDTask :=
  { t with redPattern := 0, greenPattern := 0x1f, rgbColors := fun _ => 0x001f00 }

/-- mirrors christmas-tree/firmware/LEDTask.cpp:228-242 -/
def onTimer_ModeRedGreen (t : LEDTask) : LEDTask :=
  { t with redPattern := 0x1f, greenPattern := 0x1f,
           rgbColors := fun i => if i.val % 2 = 0 then 0x1f0000 else 0x001f00 }

/-- What `RefreshRedGreen` and `RefreshRGB` put out, and in which mode. -/
structure Shown where
  mode : Mode
  redPattern : UInt8
  greenPattern : UInt8
  rgbColors : Fin 8 → BitVec 32

/-- mirrors christmas-tree/firmware/LEDTask.cpp:144-176 -/
def onTimer (σ : EvalOrder) (t : LEDTask) : LEDTask × Shown :=
  let t' := match mode t.pattern with
    | .red => onTimer_ModeRed t
    | .green => onTimer_ModeGreen t
    | .redGreen => onTimer_ModeRedGreen t
    | .random => onTimer_ModeRandom σ t
  (t', ⟨mode t.pattern, t'.redPattern, t'.greenPattern, t'.rgbColors⟩)

inductive Input
  /-- `g_ledTask->m_pattern = pattern` -/
  | setPattern (pattern : UInt8)
  | onTimer

/-- The task over time; each `OnTimer` shows something. -/
def led (σ : EvalOrder) : Machine LEDTask Input (Option Shown) where
  step t
    | .setPattern pattern => ({ t with pattern := pattern }, none)
    | .onTimer => ((onTimer σ t).1, some (onTimer σ t).2)

/-! ## What is drawn -/

/-- The generator after one more bit. -/
def next (prbs : BitVec 32) : BitVec 32 := (randomBit prbs).2

theorem randomBits_prbs (n : Nat) (prbs : BitVec 32) : (randomBits n prbs).2 = next^[n] prbs := by
  induction n generalizing prbs with
  | zero => rfl
  | succ n ih => exact ih _

theorem randomBits_getD {n k : Nat} (hk : k < n) (prbs : BitVec 32) :
    (randomBits n prbs).1.getD k false = (randomBit (next^[k] prbs)).1 := by
  induction n generalizing prbs k with
  | zero => omega
  | succ n ih =>
    cases k with
    | zero => rfl
    | succ k => exact ih (Nat.lt_of_succ_lt_succ hk) _

/-- Bit `j` of the or is operand `j`. -/
theorem testBit_orShifted {n : Nat} (b : Fin n → Bool) (i : Nat) :
    (orShifted b).testBit i = if h : i < n then b ⟨i, h⟩ else false := by
  have hfold : ∀ js : List (Fin n),
      (js.foldr (fun j acc => acc ||| (b j).toNat <<< (j : Nat)) 0).testBit i =
        js.any fun j => decide (j.val = i) && b j := by
    intro js
    induction js with
    | nil => exact Nat.zero_testBit i
    | cons j js ih =>
      have hbit : ((b j).toNat <<< (j : Nat)).testBit i = (decide (j.val = i) && b j) := by
        rw [Nat.testBit_shiftLeft, Nat.testBit_bool_toNat]
        by_cases hji : j.val = i
        · simp [hji]
        · by_cases hle : j.val ≤ i
          · have : i - j.val ≠ 0 := by omega
            simp [hji, this]
          · simp [hji, hle]
      rw [List.foldr_cons, Nat.testBit_or, ih, hbit, List.any_cons, Bool.or_comm]
  unfold orShifted
  rw [hfold]
  split
  · rename_i h
    rw [Bool.eq_iff_iff, List.any_eq_true]
    constructor
    · rintro ⟨j, -, hj⟩
      obtain ⟨hji, hb⟩ := Bool.and_eq_true_iff.mp hj
      obtain rfl : j = ⟨i, h⟩ := Fin.ext (of_decide_eq_true hji)
      exact hb
    · intro hb
      exact ⟨⟨i, h⟩, List.mem_finRange _, by simpa using hb⟩
  · rename_i h
    rw [List.any_eq_false]
    intro j _ hj
    have hji := of_decide_eq_true (Bool.and_eq_true_iff.mp hj).1
    omega

theorem orShifted_lt {n : Nat} (b : Fin n → Bool) : orShifted b < 2 ^ n := by
  apply Nat.lt_pow_two_of_testBit
  intro i hi
  rw [testBit_orShifted, dif_neg (by omega)]

/-- Operand `j` is the bit of the call made at time `π j`. -/
theorem orBits_testBit {n : Nat} (π : Perm (Fin n)) (prbs : BitVec 32) (j : Fin n) :
    (orBits n π prbs).1.testBit j = (randomBit (next^[π j] prbs)).1 := by
  unfold orBits
  dsimp only
  rw [testBit_orShifted, dif_pos j.isLt, randomBits_getD (π j).isLt]

theorem orBits_lt (n : Nat) (π : Perm (Fin n)) (prbs : BitVec 32) : (orBits n π prbs).1 < 2 ^ n :=
  orShifted_lt _

theorem orBits_prbs (n : Nat) (π : Perm (Fin n)) (prbs : BitVec 32) :
    (orBits n π prbs).2 = next^[n] prbs := randomBits_prbs n prbs

theorem setColor_spec (σ : EvalOrder) (t : LEDTask) (i : Fin 8) :
    setColor σ t i =
      { t with prbs := next^[3] t.prbs,
               rgbColors := Function.update t.rgbColors i (randomColor (σ.color i) t.prbs).1 } := by
  have hprbs := orBits_prbs 3 (σ.color i) t.prbs
  unfold setColor randomColor
  dsimp only
  rw [hprbs]

theorem setColors_spec (σ : EvalOrder) (leds : List (Fin 8)) (hleds : leds.Nodup) (t : LEDTask) :
    leds.foldl (setColor σ) t =
      { t with prbs := next^[3 * leds.length] t.prbs,
               rgbColors := fun i => if i ∈ leds then
                 (randomColor (σ.color i) (next^[3 * leds.idxOf i] t.prbs)).1
                 else t.rgbColors i } := by
  induction leds generalizing t with
  | nil => rfl
  | cons i leds ih =>
    obtain ⟨hi, hnodup⟩ := List.nodup_cons.mp hleds
    have hstep : ∀ k, next^[3 * k] (next^[3] t.prbs) = next^[3 * (k + 1)] t.prbs :=
      fun k => (Function.iterate_add_apply next (3 * k) 3 t.prbs).symm
    rw [List.foldl_cons, setColor_spec, ih hnodup]
    dsimp only
    apply LEDTask.ext
    · rfl
    · exact hstep leds.length
    · rfl
    · rfl
    · funext j
      dsimp only
      by_cases hj : j = i
      · subst hj
        rw [if_neg hi, if_pos (List.mem_cons_self ..), List.idxOf_cons_self, Function.update_self]
        rfl
      · by_cases hmem : j ∈ leds
        · rw [if_pos hmem, if_pos (List.mem_cons_of_mem i hmem),
            List.idxOf_cons_ne leds (Ne.symm hj), hstep]
        · rw [if_neg hmem, if_neg (by simp [hj, hmem]), Function.update_of_ne hj]

/-- What a random tick shows, from the generator at its start. -/
def draw (σ : EvalOrder) (prbs : BitVec 32) : Shown where
  mode := .random
  redPattern := UInt8.ofNat (orBits 5 σ.red prbs).1
  greenPattern := UInt8.ofNat (orBits 5 σ.green (next^[5] prbs)).1
  rgbColors i := (randomColor (σ.color i) (next^[10 + 3 * i] prbs)).1

theorem modeRandom_spec (σ : EvalOrder) (t : LEDTask) :
    onTimer_ModeRandom σ t =
      { t with prbs := next^[34] t.prbs, redPattern := (draw σ t.prbs).redPattern,
               greenPattern := (draw σ t.prbs).greenPattern,
               rgbColors := (draw σ t.prbs).rgbColors } := by
  have hprbs : (orBits 5 σ.green (orBits 5 σ.red t.prbs).2).2 = next^[10] t.prbs := by
    rw [orBits_prbs, orBits_prbs, ← Function.iterate_add_apply]
  unfold onTimer_ModeRandom
  dsimp only
  rw [setColors_spec σ _ (List.nodup_finRange 8)]
  dsimp only
  rw [hprbs]
  apply LEDTask.ext
  · rfl
  · rw [← Function.iterate_add_apply, List.length_finRange]
  · rfl
  · rw [orBits_prbs]
    rfl
  · funext i
    dsimp only
    rw [if_pos (List.mem_finRange i), List.idxOf_finRange, ← Function.iterate_add_apply,
      Nat.add_comm]
    rfl

/-- The patterns and colours of each mode, with the generator at `prbs`. -/
def Mode.display (σ : EvalOrder) (prbs : BitVec 32) : Mode → Shown
  | .red => ⟨.red, 0x1f, 0, fun _ => 0x1f0000⟩
  | .green => ⟨.green, 0, 0x1f, fun _ => 0x001f00⟩
  | .redGreen => ⟨.redGreen, 0x1f, 0x1f, fun i => if i.val % 2 = 0 then 0x1f0000 else 0x001f00⟩
  | .random => draw σ prbs

/-- **What `OnTimer` puts out** is what its mode is for. -/
theorem onTimer_display (σ : EvalOrder) (t : LEDTask) :
    (onTimer σ t).2 = (mode t.pattern).display σ t.prbs := by
  unfold onTimer
  cases mode t.pattern with
  | random =>
    dsimp only
    rw [modeRandom_spec]
    rfl
  | red | green | redGreen => rfl

theorem randomColor_mem (π : Perm (Fin 3)) (prbs : BitVec 32) : (randomColor π prbs).1 ∈ colors := by
  have hmem : ∀ v < 8, colors.getD v 0 ∈ colors := by decide
  exact hmem _ (orBits_lt 3 π prbs)

/-- The colours alone tell the mode: the first two are those of one of the
fixed modes, or from the table, which has neither. -/
theorem mode_of_colors {σ σ' : EvalOrder} {prbs prbs' : BitVec 32} {m m' : Mode}
    (h : (m.display σ prbs).rgbColors = (m'.display σ' prbs').rgbColors) : m = m' := by
  have hfirst := congrFun h 0
  have hsecond := congrFun h 1
  have hne : (0x1f0000 : BitVec 32) ≠ 0x001f00 := by decide
  have htable (σ : EvalOrder) (prbs : BitVec 32) : (draw σ prbs).rgbColors 0 ≠ 0x1f0000 ∧
      (draw σ prbs).rgbColors 0 ≠ 0x001f00 :=
    ⟨ne_of_mem_of_not_mem (randomColor_mem ..) (by decide),
      ne_of_mem_of_not_mem (randomColor_mem ..) (by decide)⟩
  cases m with
  | random =>
    cases m' with
    | random => rfl
    | red | redGreen => exact absurd hfirst (htable σ prbs).1
    | green => exact absurd hfirst (htable σ prbs).2
  | red =>
    cases m' with
    | random => exact absurd hfirst.symm (htable σ' prbs').1
    | red => rfl
    | green => exact absurd hfirst hne
    | redGreen => exact absurd hsecond hne
  | green =>
    cases m' with
    | random => exact absurd hfirst.symm (htable σ' prbs').2
    | red | redGreen => exact absurd hfirst hne.symm
    | green => rfl
  | redGreen =>
    cases m' with
    | random => exact absurd hfirst.symm (htable σ' prbs').1
    | red => exact absurd hsecond hne.symm
    | green => exact absurd hfirst hne
    | redGreen => rfl

/-- **A random tick** draws 34 bits. -/
theorem onTimer_random (σ : EvalOrder) (t : LEDTask) (h : mode t.pattern = .random) :
    (onTimer σ t).1.prbs = next^[34] t.prbs ∧ (onTimer σ t).2 = draw σ t.prbs := by
  refine ⟨?_, (onTimer_display σ t).trans (by rw [h]; rfl)⟩
  unfold onTimer
  rw [h]
  dsimp only
  rw [modeRandom_spec]

/-- In the other modes none is drawn. -/
theorem onTimer_other (σ : EvalOrder) (t : LEDTask) (h : mode t.pattern ≠ .random) :
    (onTimer σ t).1.prbs = t.prbs ∧ (onTimer σ t).2.mode ≠ .random := by
  refine ⟨?_, h⟩
  unfold onTimer
  cases hm : mode t.pattern with
  | random => exact absurd hm h
  | red | green | redGreen => rfl

/-- No tick changes the pattern that is selected. -/
theorem onTimer_pattern (σ : EvalOrder) (t : LEDTask) : (onTimer σ t).1.pattern = t.pattern := by
  unfold onTimer
  cases mode t.pattern with
  | random =>
    dsimp only
    rw [modeRandom_spec]
  | red | green | redGreen => rfl

end DevBoards.Tree
