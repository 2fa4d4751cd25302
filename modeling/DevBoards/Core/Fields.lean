import Mathlib.Data.Nat.Bitwise

/-!
# Words cut into fields

A word of `n` fields of `k` bits, the lowest first. Field `i` is
`x.extractLsb' (k * i) k`; code reads it with a shift and a mask.

* `shift_and_mask`: the shift and the mask read the field.
* `eq_of_fields`: the fields determine the word.
-/
namespace DevBoards.Fields

variable {w : Nat}

theorem shift_and_mask (x mask : BitVec w) (start : Nat) {k : Nat}
    (hmask : mask.toNat = 2 ^ k - 1) :
    ((x >>> start) &&& mask).toNat = (x.extractLsb' start k).toNat := by
  rw [BitVec.toNat_and, hmask, BitVec.toNat_ushiftRight, BitVec.extractLsb'_toNat,
    Nat.and_two_pow_sub_one_eq_mod]

theorem eq_of_fields {k n : Nat} (hw : w ≤ k * n) {x y : BitVec w}
    (h : ∀ i < n, x.extractLsb' (k * i) k = y.extractLsb' (k * i) k) : x = y := by
  apply BitVec.eq_of_getLsbD_eq
  intro j hj
  have hlt : j < k * n := Nat.lt_of_lt_of_le hj hw
  have hk : 0 < k := Nat.pos_of_mul_pos_right (Nat.lt_of_le_of_lt (Nat.zero_le j) hlt)
  have hbit := congrArg (·.getLsbD (j % k)) (h (j / k) (Nat.div_lt_of_lt_mul hlt))
  simpa only [BitVec.getLsbD_extractLsb', Nat.mod_lt j hk, decide_true, Bool.true_and,
    Nat.div_add_mod] using hbit

end DevBoards.Fields
