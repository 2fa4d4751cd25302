import Mathlib.Data.List.ReduceOption
import Mathlib.Data.Nat.Prime.Basic
import Mathlib.Order.Bounds.Basic
import Mathlib.Tactic.NormNum.Prime
import DevBoards.Core.Orbit
import DevBoards.Core.Serial
import DevBoards.Core.XorLinear
import DevBoards.Tree.LEDTask

/-!
# The random LED animation

`RandomBit` steps a 15-bit linear feedback shift register that sits in the low
bits of `m_prbs`. The register is of maximal length (32767 states), a random
tick draws 34 bits, and 34 is coprime to 32767, so the states at tick starts
run through all 32767 as well. The `n` bits drawn last are the low `n` bits of
the register, so that over a period each value of them comes up equally often,
but for 0, which the state 0 is missing from.

* `lfsr_period`: the register is of maximal length.
* `tickStart_period`: so is its sequence of states at tick starts.
* `count_orBits`: how often an expression takes each value.
* `random_balanced`: the animation never gets stuck and is balanced.
-/
namespace DevBoards.Tree
open Equiv (Perm)
open Function

/-! ## The register -/

/-- The bits of `m_prbs` that matter. -/
def low (prbs : BitVec 32) : BitVec 15 := prbs.setWidth 15

def feedback (x : BitVec 15) : Bool := x.getLsbD 14 ^^ x.getLsbD 13

def lfsr (x : BitVec 15) : BitVec 15 := x.shiftConcat (feedback x)

theorem lfsr_getLsbD_zero (x : BitVec 15) : (lfsr x).getLsbD 0 = feedback x := by
  unfold lfsr
  rw [BitVec.getLsbD_shiftConcat]
  rfl

theorem lfsr_getLsbD_succ (x : BitVec 15) {i : Nat} (h : i + 1 < 15) :
    (lfsr x).getLsbD (i + 1) = x.getLsbD i := by
  unfold lfsr
  rw [BitVec.getLsbD_shiftConcat, decide_eq_true h, Bool.true_and, if_neg (Nat.succ_ne_zero i)]
  rfl

theorem randomBit_eq (prbs : BitVec 32) :
    randomBit prbs = (feedback (low prbs), prbs.shiftConcat (feedback (low prbs))) := by
  have hbit : ((prbs >>> 14) ^^^ (prbs >>> 13)).getLsbD 0 = feedback (low prbs) := by
    unfold feedback low
    simp
  have hnext : ((prbs >>> 14) ^^^ (prbs >>> 13)) &&& 1 =
      if feedback (low prbs) then 1#32 else 0#32 := by
    have hone : (1 : BitVec 32) = BitVec.twoPow 32 0 := rfl
    rw [hone, BitVec.and_twoPow, hbit]
    rfl
  unfold randomBit
  dsimp only
  rw [hnext, Serial.shiftConcat_eq]
  cases feedback (low prbs)
  · exact Prod.ext rfl (BitVec.or_zero ..)
  · rfl

theorem randomBit_low (prbs : BitVec 32) : (randomBit prbs).1 = feedback (low prbs) :=
  congrArg Prod.fst (randomBit_eq prbs)

/-- The bits above never come back down. -/
theorem low_next (prbs : BitVec 32) : low (next prbs) = lfsr (low prbs) := by
  unfold next
  rw [randomBit_eq]
  apply BitVec.eq_of_getLsbD_eq
  intro i hi
  cases i with
  | zero =>
    rw [lfsr_getLsbD_zero]
    simp [low]
  | succ i =>
    have hi' : i < 15 := by omega
    have hi'' : i + 1 < 32 := by omega
    rw [lfsr_getLsbD_succ _ hi]
    unfold low
    rw [BitVec.getLsbD_setWidth, BitVec.getLsbD_setWidth, BitVec.getLsbD_shiftConcat]
    simp [hi, hi', hi'']

theorem low_iterate (n : Nat) (prbs : BitVec 32) : low (next^[n] prbs) = lfsr^[n] (low prbs) := by
  induction n generalizing prbs with
  | zero => rfl
  | succ n ih => exact (ih _).trans (congrArg _ (low_next prbs))

/-- The low bits of the register are the last bits drawn. -/
theorem iterate_getLsbD {n i : Nat} (hi : i < n) (hn : n ≤ 15) (x : BitVec 15) :
    (lfsr^[n] x).getLsbD i = feedback (lfsr^[n - 1 - i] x) := by
  induction n generalizing i with
  | zero => omega
  | succ n ih =>
    rw [iterate_succ_apply']
    cases i with
    | zero => exact lfsr_getLsbD_zero _
    | succ i =>
      rw [lfsr_getLsbD_succ _ (by omega), ih (by omega) (by omega)]
      congr 2
      omega

/-! ## Maximal length -/

theorem lfsr_linear : XorLinear.Linear lfsr := by
  intro x y
  have hfeedback : feedback (x ^^^ y) = (feedback x ^^ feedback y) := by
    unfold feedback
    rw [BitVec.getLsbD_xor, BitVec.getLsbD_xor, Bool.xor_assoc, Bool.xor_left_comm (y.getLsbD 14),
      Bool.xor_assoc]
  apply BitVec.eq_of_getLsbD_eq
  intro i hi
  rw [BitVec.getLsbD_xor]
  cases i with
  | zero => rw [lfsr_getLsbD_zero, lfsr_getLsbD_zero, lfsr_getLsbD_zero, hfeedback]
  | succ i =>
    rw [lfsr_getLsbD_succ _ hi, lfsr_getLsbD_succ _ hi, lfsr_getLsbD_succ _ hi, BitVec.getLsbD_xor]

/-- As many steps of the register from 1 as the bits say. -/
theorem iterate_one {n : Nat} (bs : List Bool) (hn : XorLinear.value bs = n) :
    lfsr^[n] 1#15 = XorLinear.jump (XorLinear.columns lfsr) bs 1#15 :=
  hn ▸ (XorLinear.jump_columns lfsr_linear bs 1#15).symm

/-- **Maximal length**: from 1 the register comes back after 32767 = 7 · 31 ·
151 steps, and not after a 7th, a 31st or a 151st of them. -/
theorem lfsr_period : minimalPeriod lfsr 1#15 = 32767 := by
  apply Orbit.minimalPeriod_eq_of_prime_div
  · exact (iterate_one (List.replicate 15 true) (by decide)).trans (by decide +kernel)
  · intro p hp hdvd
    have h7 : lfsr^[4681] 1#15 ≠ 1#15 := by
      rw [iterate_one [true, false, false, true, false, false, true, false, false, true, false,
        false, true] (by decide)]
      decide +kernel
    have h31 : lfsr^[1057] 1#15 ≠ 1#15 := by
      rw [iterate_one [true, false, false, false, false, true, false, false, false, false, true]
        (by decide)]
      decide +kernel
    have h151 : lfsr^[217] 1#15 ≠ 1#15 := by
      rw [iterate_one [true, false, false, true, true, false, true, true] (by decide)]
      decide +kernel
    have hfactor : 32767 = 7 * (31 * 151) := by norm_num
    rw [hfactor, hp.dvd_mul, hp.dvd_mul, Nat.prime_dvd_prime_iff_eq hp (by norm_num),
      Nat.prime_dvd_prime_iff_eq hp (by norm_num),
      Nat.prime_dvd_prime_iff_eq hp (by norm_num)] at hdvd
    rcases hdvd with rfl | rfl | rfl
    · exact h7
    · exact h31
    · exact h151

/-- From 1 the register never reaches 0. -/
theorem iterate_one_ne_zero (n : Nat) : lfsr^[n] 1#15 ≠ 0#15 := by
  intro hzero
  have hperiodic : IsPeriodicPt lfsr 32767 1#15 := lfsr_period ▸ isPeriodicPt_minimalPeriod ..
  have hback : lfsr^[32767 * n] 1#15 = 1#15 := hperiodic.mul_const n
  have hstuck : lfsr^[32766 * n] 0#15 = 0#15 := iterate_fixed lfsr_linear.zero _
  rw [show 32767 * n = 32766 * n + n by omega, iterate_add_apply, hzero, hstuck] at hback
  exact absurd hback (by decide)

/-- **34 is coprime to the period.** -/
theorem tick_period (c : Nat) : minimalPeriod lfsr^[34] (lfsr^[c] 1#15) = 32767 := by
  have hmem : 1#15 ∈ periodicPts lfsr := minimalPeriod_pos_iff_mem_periodicPts.mp (by
    rw [lfsr_period]
    decide)
  rw [minimalPeriod_iterate_eq_div_gcd (by decide), minimalPeriod_apply_iterate hmem, lfsr_period]
  rfl

/-! ## Counting -/

/-- The bits drawn, in order of time, when the expression has the value `v`. -/
def drawn {n : Nat} (π : Perm (Fin n)) (v : Nat) : BitVec n :=
  Serial.ofBits ((List.finRange n).map fun k => v.testBit (π.symm k))

theorem drawn_bit {n : Nat} (π : Perm (Fin n)) (v : Nat) (i : Fin n) :
    (drawn π v).getLsbD i = v.testBit (π.symm i.rev) := by
  have hi := i.isLt
  have hlt : n - 1 - i < ((List.finRange n).map fun k => v.testBit (π.symm k)).length := by
    rw [List.length_map, List.length_finRange]
    omega
  have hrev : Fin.cast List.length_finRange ⟨n - 1 - i, by rw [List.length_finRange]; omega⟩ =
      i.rev :=
    Fin.ext (by rw [Fin.val_rev]; exact Nat.sub_right_comm ..)
  unfold drawn Serial.ofBits
  rw [Serial.shiftIn_getLsbD, List.length_map, List.length_finRange, if_pos hi, decide_eq_true hi,
    Bool.true_and, List.getD_eq_getElem?_getD, List.getElem?_eq_getElem hlt, Option.getD_some,
    List.getElem_map, List.getElem_finRange, hrev]

theorem drawn_getLsbD {n : Nat} (π : Perm (Fin n)) (v : Nat) (j : Fin n) :
    (drawn π v).getLsbD (π j).rev = v.testBit j := by
  rw [drawn_bit, Fin.rev_rev, Equiv.symm_apply_apply]

theorem drawn_eq_zero_iff {n : Nat} (π : Perm (Fin n)) {v : Nat} (hv : v < 2 ^ n) :
    drawn π v = 0#n ↔ v = 0 := by
  constructor
  · intro h
    apply Nat.eq_of_testBit_eq
    intro j
    rw [Nat.zero_testBit]
    by_cases hj : j < n
    · have hbit := drawn_getLsbD π v ⟨j, hj⟩
      rw [h, BitVec.getLsbD_zero] at hbit
      exact hbit.symm
    · have hle : 2 ^ n ≤ 2 ^ j := Nat.pow_le_pow_right (by decide) (by omega)
      exact Nat.testBit_lt_two_pow (Nat.lt_of_lt_of_le hv hle)
  · rintro rfl
    apply BitVec.eq_of_getLsbD_eq
    intro i hi
    rw [BitVec.getLsbD_zero, ← Nat.zero_testBit (π.symm (Fin.rev ⟨i, hi⟩))]
    exact drawn_bit π 0 ⟨i, hi⟩

/-- The value of an expression is a matter of the low bits of the register after it. -/
theorem orBits_eq_iff {n : Nat} (hn : n ≤ 15) (π : Perm (Fin n)) {v : Nat} (hv : v < 2 ^ n)
    (prbs : BitVec 32) :
    (orBits n π prbs).1 = v ↔ (lfsr^[n] (low prbs)).setWidth n = drawn π v := by
  have hbit : ∀ j : Fin n,
      (lfsr^[n] (low prbs)).getLsbD (π j).rev = (orBits n π prbs).1.testBit j := by
    intro j
    rw [orBits_testBit, randomBit_low, low_iterate, iterate_getLsbD (Fin.is_lt _) hn]
    congr 2
    rw [Fin.val_rev]
    omega
  constructor
  · rintro rfl
    apply BitVec.eq_of_getLsbD_eq
    intro i hi
    have h := hbit (π.symm (Fin.rev ⟨i, hi⟩))
    rw [Equiv.apply_symm_apply, Fin.rev_rev, ← drawn_bit] at h
    rw [BitVec.getLsbD_setWidth, decide_eq_true hi, Bool.true_and]
    exact h
  · intro h
    apply Nat.eq_of_testBit_eq
    intro j
    by_cases hj : j < n
    · rw [← hbit ⟨j, hj⟩, ← drawn_getLsbD π v ⟨j, hj⟩, ← h, BitVec.getLsbD_setWidth,
        decide_eq_true (Fin.is_lt _), Bool.true_and]
    · have hle : 2 ^ n ≤ 2 ^ j := Nat.pow_le_pow_right (by decide) (by omega)
      rw [Nat.testBit_lt_two_pow (Nat.lt_of_lt_of_le (orBits_lt ..) hle),
        Nat.testBit_lt_two_pow (Nat.lt_of_lt_of_le hv hle)]

/-- **How often an expression takes each value** in 32767 ticks from the
`K`-th on, when it is evaluated `d` draws into the tick. -/
theorem count_orBits {n : Nat} (hn : n ≤ 15) (π : Perm (Fin n)) {v : Nat} (hv : v < 2 ^ n)
    (d K : Nat) :
    ((List.range 32767).map fun k => next^[34 * (K + k)] 1#32).countP
        (fun prbs => (orBits n π (next^[d] prbs)).1 = v) =
      2 ^ (15 - n) - if v = 0 then 1 else 0 := by
  have hstate : ∀ k, lfsr^[n] (low (next^[d] (next^[34 * (K + k)] 1#32))) =
      (lfsr^[34])^[k] (lfsr^[n + d + 34 * K] 1#15) := by
    intro k
    have hone : low 1#32 = 1#15 := by decide
    rw [low_iterate, low_iterate, hone, ← iterate_mul, ← iterate_add_apply, ← iterate_add_apply,
      ← iterate_add_apply]
    congr 1
    omega
  have hne : ∀ k, (lfsr^[34])^[k] (lfsr^[n + d + 34 * K] 1#15) ≠ 0#15 := by
    intro k
    rw [← iterate_mul, ← iterate_add_apply]
    exact iterate_one_ne_zero _
  have hperiod := tick_period (n + d + 34 * K)
  have hcount := Orbit.countP_orbit hne (by rw [hperiod, Orbit.card_word]; rfl)
    fun x => x.setWidth n = drawn π v
  rw [hperiod] at hcount
  simp only [decide_eq_true_eq] at hcount
  rw [Orbit.card_low_bits_ne_zero hn] at hcount
  simp only [drawn_eq_zero_iff π hv] at hcount
  rw [← hcount, Orbit.orbit, List.countP_map, List.countP_map]
  apply List.countP_congr
  intro k _
  simp only [comp_apply, decide_eq_true_eq]
  rw [orBits_eq_iff hn π hv, hstate]

/-! ## Whole runs -/

variable {σ : EvalOrder} {t : LEDTask}

/-- What was shown in random mode, tick by tick. -/
def randomTicks (shown : List (Option Shown)) : List Shown :=
  shown.reduceOption.filter fun s => s.mode = .random

/-- How often `OnTimer` is called with a random pattern selected. -/
def randomCalls : UInt8 → List Input → Nat
  | _, [] => 0
  | _, .setPattern pattern :: inputs => randomCalls pattern inputs
  | pattern, .onTimer :: inputs =>
    randomCalls pattern inputs + if mode pattern = .random then 1 else 0

/-- A run draws for those calls, one after the other, and for nothing else; and
they are what is shown in random mode. -/
theorem run_draws (σ : EvalOrder) (t : LEDTask) (inputs : List Input) :
    randomTicks ((led σ).outs t inputs) =
        ((List.range (randomCalls t.pattern inputs)).map fun k => draw σ (next^[34 * k] t.prbs)) ∧
      ((led σ).final t inputs).prbs = next^[34 * randomCalls t.pattern inputs] t.prbs := by
  induction inputs generalizing t with
  | nil => exact ⟨rfl, rfl⟩
  | cons i inputs ih =>
    rw [Machine.outs_cons, Machine.final_cons]
    cases i with
    | setPattern pattern => exact ih { t with pattern := pattern }
    | onTimer =>
      obtain ⟨hticks, hprbs⟩ := ih (onTimer σ t).1
      rw [onTimer_pattern] at hticks hprbs
      show ((onTimer σ t).2 ::
          ((led σ).outs (onTimer σ t).1 inputs).reduceOption).filter _ = _ ∧
        ((led σ).final (onTimer σ t).1 inputs).prbs = _
      unfold randomCalls
      by_cases hm : mode t.pattern = .random
      · obtain ⟨hnext, hshown⟩ := onTimer_random σ t hm
        have hlater : ∀ k, next^[34 * k] (onTimer σ t).1.prbs = next^[34 * (k + 1)] t.prbs := by
          intro k
          rw [hnext, ← iterate_add_apply, Nat.mul_succ]
        rw [if_pos hm]
        refine ⟨?_, hprbs.trans (hlater _)⟩
        rw [List.filter_cons_of_pos (by rw [hshown]; rfl), List.range_succ_eq_map, List.map_cons,
          List.map_map, hshown]
        congr 1
        refine hticks.trans (List.map_congr_left fun k _ => ?_)
        exact congrArg (draw σ) (hlater k)
      · obtain ⟨hsame, hmode⟩ := onTimer_other σ t hm
        rw [hsame] at hticks hprbs
        rw [if_neg hm]
        refine ⟨?_, hprbs⟩
        rw [List.filter_cons_of_neg (by simpa using hmode)]
        exact hticks

/-! ### The bits that matter -/

theorem randomBits_congr (n : Nat) {prbs prbs' : BitVec 32} (h : low prbs = low prbs') :
    (randomBits n prbs).1 = (randomBits n prbs').1 := by
  induction n generalizing prbs prbs' with
  | zero => rfl
  | succ n ih =>
    have hnext : low (next prbs) = low (next prbs') := by rw [low_next, low_next, h]
    have hbit : (randomBit prbs).1 = (randomBit prbs').1 := by rw [randomBit_low, randomBit_low, h]
    exact congrArg₂ List.cons hbit (ih hnext)

theorem orBits_congr {n : Nat} (π : Perm (Fin n)) (d : Nat) {prbs prbs' : BitVec 32}
    (h : low prbs = low prbs') :
    (orBits n π (next^[d] prbs)).1 = (orBits n π (next^[d] prbs')).1 := by
  have hlow : low (next^[d] prbs) = low (next^[d] prbs') := by rw [low_iterate, low_iterate, h]
  unfold orBits
  dsimp only
  rw [randomBits_congr n hlow]

theorem draw_congr (σ : EvalOrder) {prbs prbs' : BitVec 32} (h : low prbs = low prbs') :
    draw σ prbs = draw σ prbs' := by
  unfold draw randomColor
  congr 1
  · exact congrArg UInt8.ofNat (orBits_congr σ.red 0 h)
  · exact congrArg UInt8.ofNat (orBits_congr σ.green 5 h)
  · funext i
    exact congrArg (colors.getD · 0) (orBits_congr (σ.color i) (10 + 3 * i) h)

theorem onTimer_low (σ : EvalOrder) (t : LEDTask) {prbs : BitVec 32} (h : low prbs = low t.prbs) :
    ∃ prbs', low prbs' = low (onTimer σ t).1.prbs ∧ onTimer σ { t with prbs := prbs } =
      ({ (onTimer σ t).1 with prbs := prbs' }, (onTimer σ t).2) := by
  unfold onTimer
  cases mode t.pattern with
  | random =>
    refine ⟨next^[34] prbs, ?_, ?_⟩
    · dsimp only
      rw [modeRandom_spec, low_iterate, low_iterate, h]
    · dsimp only
      rw [modeRandom_spec, modeRandom_spec, draw_congr σ h]
  | red | green | redGreen => exact ⟨prbs, h, rfl⟩

/-- **The bits above the register** influence no later output. -/
theorem outs_low (σ : EvalOrder) (t : LEDTask) {prbs : BitVec 32} (h : low prbs = low t.prbs)
    (inputs : List Input) :
    (led σ).outs { t with prbs := prbs } inputs = (led σ).outs t inputs := by
  induction inputs generalizing t prbs with
  | nil => rfl
  | cons i inputs ih =>
    rw [Machine.outs_cons, Machine.outs_cons]
    cases i with
    | setPattern pattern => exact congrArg (none :: ·) (ih { t with pattern := pattern } h)
    | onTimer =>
      obtain ⟨prbs', hlow, heq⟩ := onTimer_low σ t h
      show some (onTimer σ { t with prbs := prbs }).2 ::
        (led σ).outs (onTimer σ { t with prbs := prbs }).1 inputs = _
      rw [heq]
      exact congrArg (some (onTimer σ t).2 :: ·) (ih (onTimer σ t).1 hlow)

/-! ### Ticks -/

/-- The low bits at the start of the `k`-th random tick from `t` on. -/
def tickStart (σ : EvalOrder) (t : LEDTask) (k : Nat) : BitVec 15 :=
  low ((onTimer_ModeRandom σ)^[k] t).prbs

theorem tickStart_eq (σ : EvalOrder) (t : LEDTask) (k : Nat) :
    tickStart σ t k = lfsr^[34 * k] (low t.prbs) := by
  induction k generalizing t with
  | zero => rfl
  | succ k ih =>
    have hstep : tickStart σ t (k + 1) = tickStart σ (onTimer_ModeRandom σ t) k := rfl
    rw [hstep, ih, modeRandom_spec, low_iterate, ← iterate_add_apply, Nat.mul_succ]

/-- **The states at tick starts** have the least period 32767. -/
theorem tickStart_period (σ : EvalOrder) (h : low t.prbs = 1#15) :
    IsLeast {n | 0 < n ∧ ∀ k, tickStart σ t (k + n) = tickStart σ t k} 32767 := by
  have hstart : ∀ k, tickStart σ t k = (lfsr^[34])^[k] 1#15 := by
    intro k
    rw [tickStart_eq, h, iterate_mul]
  have hperiod := tick_period 0
  constructor
  · refine ⟨by decide, ?_⟩
    intro k
    rw [hstart, hstart, iterate_add_apply, ← hperiod]
    exact congrArg _ iterate_minimalPeriod
  · rintro n ⟨hn, hperiodic⟩
    have hback : IsPeriodicPt lfsr^[34] n 1#15 := by
      have h0 := hperiodic 0
      rwa [hstart, hstart, Nat.zero_add] at h0
    exact hperiod ▸ hback.minimalPeriod_le hn

/-- A window on the values of `f` on `0, 1, ...` starts somewhere. -/
theorem window_eq {α : Type*} {f : Nat → α} {n : Nat} {win : List α}
    (h : win <:+: (List.range n).map f) :
    ∃ K, win = (List.range win.length).map fun k => f (K + k) := by
  obtain ⟨pre, suf, h⟩ := h
  refine ⟨pre.length, List.ext_getElem? fun k => ?_⟩
  by_cases hk : k < win.length
  · have hlen := congrArg List.length h
    simp only [List.length_append, List.length_map, List.length_range] at hlen
    have hget : win[k]? = ((List.range n).map f)[pre.length + k]? := by
      rw [← h, List.append_assoc, List.getElem?_append_right (Nat.le_add_right ..),
        Nat.add_sub_cancel_left, List.getElem?_append_left hk]
    rw [hget, List.getElem?_map, List.getElem?_map, List.getElem?_range (by omega),
      List.getElem?_range hk]
    rfl
  · rw [List.getElem?_eq_none (Nat.not_lt.mp hk), List.getElem?_eq_none (by simpa using hk)]

/-- In these ticks, every colour and every red and green pattern comes up
equally often, but for the first of each, which comes up once less. -/
structure Balanced (win : List Shown) : Prop where
  rgb : ∀ i, ∀ v < 8, win.countP (fun s => s.rgbColors i = colors.getD v 0) =
    if v = 0 then 4095 else 4096
  red : ∀ v < 32, win.countP (fun s => s.redPattern.toNat = v) = if v = 0 then 1023 else 1024
  green : ∀ v < 32, win.countP (fun s => s.greenPattern.toNat = v) = if v = 0 then 1023 else 1024

theorem colors_inj : ∀ v < 8, ∀ v' < 8, colors.getD v 0 = colors.getD v' 0 → v = v' := by decide

/-- The ticks of a period, from the `K`-th on. -/
def period (σ : EvalOrder) (K : Nat) : List Shown :=
  (List.range 32767).map fun k => draw σ (next^[34 * (K + k)] 1#32)

theorem count_period {n : Nat} (hn : n ≤ 15) (π : Perm (Fin n)) (d K : Nat) {v : Nat}
    (hv : v < 2 ^ n) {p : Shown → Bool}
    (hp : ∀ prbs, p (draw σ prbs) = true ↔ (orBits n π (next^[d] prbs)).1 = v) :
    (period σ K).countP p = 2 ^ (15 - n) - if v = 0 then 1 else 0 := by
  rw [← count_orBits hn π hv d K, period, List.countP_map, List.countP_map]
  apply List.countP_congr
  intro k _
  rw [comp_apply, comp_apply, hp, decide_eq_true_iff]

theorem pattern_iff (π : Perm (Fin 5)) (prbs : BitVec 32) (v : Nat) :
    (UInt8.ofNat (orBits 5 π prbs).1).toNat = v ↔ (orBits 5 π prbs).1 = v := by
  have hlt := orBits_lt 5 π prbs
  rw [UInt8.toNat_ofNat', Nat.mod_eq_of_lt (by omega)]

theorem period_balanced (σ : EvalOrder) (K : Nat) : Balanced (period σ K) := by
  refine ⟨?_, ?_, ?_⟩
  · intro i v hv
    have hcolor : ∀ prbs, decide ((draw σ prbs).rgbColors i = colors.getD v 0) = true ↔
        (orBits 3 (σ.color i) (next^[10 + 3 * i] prbs)).1 = v := by
      intro prbs
      rw [decide_eq_true_iff]
      exact ⟨colors_inj _ (orBits_lt ..) v hv, fun h => congrArg (colors.getD · 0) h⟩
    rw [count_period (by decide) (σ.color i) (10 + 3 * i) K hv hcolor]
    split <;> rfl
  · intro v hv
    have hred : ∀ prbs, decide ((draw σ prbs).redPattern.toNat = v) = true ↔
        (orBits 5 σ.red (next^[0] prbs)).1 = v := by
      intro prbs
      rw [decide_eq_true_iff]
      exact pattern_iff σ.red prbs v
    rw [count_period (by decide) σ.red 0 K hv hred]
    split <;> rfl
  · intro v hv
    have hgreen : ∀ prbs, decide ((draw σ prbs).greenPattern.toNat = v) = true ↔
        (orBits 5 σ.green (next^[5] prbs)).1 = v := by
      intro prbs
      rw [decide_eq_true_iff]
      exact pattern_iff σ.green _ v
    rw [count_period (by decide) σ.green 5 K hv hgreen]
    split <;> rfl

/-- **The random animation** never gets stuck and is balanced, in any run from
the constructor and in whatever order the calls of `RandomBit` are evaluated:
the register is never 0, the bits above it do not matter, its states at tick
starts have the least period 32767, and any 32767 consecutive random ticks show
everything equally often, but for the colour of index 0 and the patterns 0,
which come up once less. There are as many of these ticks as `OnTimer` is called
while a random pattern is selected. -/
theorem random_balanced (σ : EvalOrder) (rgbColors : Fin 8 → BitVec 32) (stored : UInt8)
    (inputs : List Input) :
    let t₀ := construct rgbColors stored
    let t := (led σ).final t₀ inputs
    let ticks := randomTicks ((led σ).outs t₀ inputs)
    ticks.length = randomCalls stored inputs ∧
      (∀ d, low (next^[d] t.prbs) ≠ 0#15) ∧
      (∀ prbs, low prbs = low t.prbs → ∀ later,
        (led σ).outs { t with prbs := prbs } later = (led σ).outs t later) ∧
      low t.prbs = tickStart σ t₀ ticks.length ∧
      IsLeast {n | 0 < n ∧ ∀ k, tickStart σ t₀ (k + n) = tickStart σ t₀ k} 32767 ∧
      colors.Nodup ∧
      ∀ win, win <:+: ticks → win.length = 32767 → Balanced win := by
  intro t₀ t ticks
  obtain ⟨hticks, hprbs⟩ := run_draws σ t₀ inputs
  have hone : low t₀.prbs = 1#15 := show low 1#32 = 1#15 by decide
  have hlen : ticks.length = randomCalls t₀.pattern inputs := by
    show (randomTicks _).length = _
    rw [hticks, List.length_map, List.length_range]
  refine ⟨hlen, ?_, ?_, ?_, tickStart_period σ hone, by decide, ?_⟩
  · intro d
    show low (next^[d] ((led σ).final t₀ inputs).prbs) ≠ 0#15
    rw [hprbs, low_iterate, low_iterate, hone, ← iterate_add_apply]
    exact iterate_one_ne_zero _
  · intro prbs hlow later
    exact outs_low σ t hlow later
  · show low ((led σ).final t₀ inputs).prbs = _
    rw [hlen, tickStart_eq, hprbs, low_iterate]
  · intro win hwin hlen
    change win <:+: randomTicks _ at hwin
    rw [hticks] at hwin
    obtain ⟨K, hK⟩ := window_eq hwin
    rw [hlen] at hK
    exact hK ▸ period_balanced σ K

end DevBoards.Tree
