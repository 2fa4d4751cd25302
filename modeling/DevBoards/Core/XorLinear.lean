import Mathlib.Logic.Function.Iterate

/-!
# Maps on words that are linear over xor

Such a map is given by its columns, its values on the single bits, and so are
its iterates: squaring the columns doubles the number of steps.

* `jump_columns`: `n` steps of the map in as many squarings as `n` has bits.
-/
namespace DevBoards.XorLinear

variable {w : Nat} {f : BitVec w → BitVec w}

def Linear (f : BitVec w → BitVec w) : Prop := ∀ x y, f (x ^^^ y) = f x ^^^ f y

def columns (f : BitVec w → BitVec w) : List (BitVec w) :=
  (List.range w).map fun i => f (BitVec.twoPow w i)

/-- The xor of the columns at the set bits of `x`, from bit `i` on. -/
def combine : List (BitVec w) → Nat → BitVec w → BitVec w
  | [], _, _ => 0#w
  | c :: cols, i, x => bif x.getLsbD i then c ^^^ combine cols (i + 1) x else combine cols (i + 1) x

/-- The columns of `f ∘ f`, from those of `f`. -/
def square (cols : List (BitVec w)) : List (BitVec w) := cols.map (combine cols 0)

/-- As many steps as the bits say, least significant first. -/
def jump : List (BitVec w) → List Bool → BitVec w → BitVec w
  | _, [], x => x
  | cols, b :: bs, x => jump (square cols) bs (bif b then combine cols 0 x else x)

/-- The number with these bits, least significant first. -/
def value : List Bool → Nat
  | [] => 0
  | b :: bs => b.toNat + 2 * value bs

theorem Linear.zero (h : Linear f) : f 0#w = 0#w := by
  have h0 : f 0#w = f 0#w ^^^ f 0#w := (congrArg f BitVec.xor_self.symm).trans (h 0#w 0#w)
  exact h0.trans BitVec.xor_self

theorem Linear.comp {g : BitVec w → BitVec w} (hf : Linear f) (hg : Linear g) : Linear (f ∘ g) :=
  fun x y => (congrArg f (hg x y)).trans (hf _ _)

/-- `x` without its low `i` bits. -/
def above (x : BitVec w) (i : Nat) : BitVec w := x >>> i <<< i

theorem above_getLsbD (x : BitVec w) (i j : Nat) :
    (above x i).getLsbD j = (decide (i ≤ j) && x.getLsbD j) := by
  unfold above
  rw [BitVec.getLsbD_shiftLeft, BitVec.getLsbD_ushiftRight]
  by_cases hij : i ≤ j
  · rw [Nat.add_sub_cancel' hij]
    by_cases hj : j < w
    · simp [hij, hj]
    · simp [hj, BitVec.getLsbD_of_ge x j (Nat.not_lt.mp hj)]
  · simp [hij, Nat.lt_of_not_le hij]

theorem above_eq (x : BitVec w) (i : Nat) :
    above x i = (bif x.getLsbD i then BitVec.twoPow w i else 0#w) ^^^ above x (i + 1) := by
  apply BitVec.eq_of_getLsbD_eq
  intro j hj
  rw [BitVec.getLsbD_xor, above_getLsbD, above_getLsbD]
  by_cases hij : i = j
  · subst hij
    cases hx : x.getLsbD i <;> simp [hj]
  · have hle : (decide (i ≤ j)) = decide (i + 1 ≤ j) := decide_eq_decide.mpr (by omega)
    rw [hle]
    cases x.getLsbD i <;> simp [hij]

theorem combine_from (h : Linear f) (x : BitVec w) (n i : Nat) (hn : i + n = w) :
    combine ((List.range' i n).map fun j => f (BitVec.twoPow w j)) i x = f (above x i) := by
  induction n generalizing i with
  | zero =>
    have hzero : above x i = 0#w := by
      apply BitVec.eq_of_getLsbD_eq
      intro j hj
      rw [above_getLsbD, decide_eq_false (by omega), Bool.false_and, BitVec.getLsbD_zero]
    rw [hzero, h.zero]
    rfl
  | succ n ih =>
    rw [List.range'_succ, List.map_cons, combine, ih (i + 1) (by omega), above_eq x i, h]
    cases x.getLsbD i
    · rw [cond_false, cond_false, h.zero, BitVec.zero_xor]
    · rfl

/-- A linear map is the combination of its columns. -/
theorem combine_columns (h : Linear f) (x : BitVec w) : combine (columns f) 0 x = f x := by
  have hall : above x 0 = x := by
    apply BitVec.eq_of_getLsbD_eq
    intro j _
    rw [above_getLsbD, decide_eq_true (Nat.zero_le j), Bool.true_and]
  unfold columns
  rw [List.range_eq_range', combine_from h x w 0 (Nat.zero_add w), hall]

theorem square_columns (h : Linear f) : square (columns f) = columns (f ∘ f) := by
  unfold square
  rw [funext (combine_columns h)]
  exact List.map_map ..

/-- **Jump rule.** -/
theorem jump_columns (h : Linear f) (bs : List Bool) (x : BitVec w) :
    jump (columns f) bs x = f^[value bs] x := by
  induction bs generalizing f x with
  | nil => rfl
  | cons b bs ih =>
    rw [jump, square_columns h, ih (h.comp h), value, Nat.add_comm, Function.iterate_add_apply,
      Function.iterate_mul]
    cases b
    · rfl
    · exact congrArg _ (combine_columns h x)

end DevBoards.XorLinear
