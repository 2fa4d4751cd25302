import Mathlib.Tactic.TypeStar

/-!
# Words on a serial line, most significant bit first

`msbBits` is the order in which the bits of a word are sent, `ofBits` what a
shift register of the same width holds once it has taken them in.

* `ofBits_msbBits`: it holds the word.
* `shiftOut_eq`: sending the top bit and shifting left, over and over, sends
  the bits in this order.
* `words_flatMap`: words sent one after the other are told apart again.
* `and_bit`, `and_bit_eq`, `shiftConcat_eq`: a bit tested with a mask, and one
  taken in with a shift and an or.
-/
namespace DevBoards.Serial

variable {w : Nat}

def msbBits (v : BitVec w) : List Bool := (List.range w).map v.getMsbD

/-- A shift register of width `w` that takes in `bs`, from `x`. -/
def shiftIn (x : BitVec w) (bs : List Bool) : BitVec w := bs.foldl BitVec.shiftConcat x

def ofBits (bs : List Bool) : BitVec w := shiftIn 0 bs

/-- The top bit of each of `n` shifts to the left. -/
def shiftOut : Nat → BitVec w → List Bool
  | 0, _ => []
  | n + 1, v => v.msb :: shiftOut n (v <<< 1)

@[simp] theorem length_msbBits (v : BitVec w) : (msbBits v).length = w := by simp [msbBits]

theorem shiftIn_getLsbD (bs : List Bool) (x : BitVec w) (i : Nat) :
    (shiftIn x bs).getLsbD i = (decide (i < w) &&
      if i < bs.length then bs.getD (bs.length - 1 - i) false else x.getLsbD (i - bs.length)) := by
  induction bs generalizing x with
  | nil =>
    simp only [shiftIn, List.foldl_nil, List.length_nil, Nat.not_lt_zero, if_false, Nat.sub_zero]
    by_cases h : i < w
    · simp [h]
    · simp [h, BitVec.getLsbD_of_ge x i (Nat.not_lt.mp h)]
  | cons b bs ih =>
    show (shiftIn (x.shiftConcat b) bs).getLsbD i = _
    rw [ih, BitVec.getLsbD_shiftConcat]
    by_cases hw : i < w
    · rcases Nat.lt_trichotomy i bs.length with h | h | h
      · obtain ⟨k, hk⟩ := Nat.exists_eq_add_of_lt h
        simp [hw, h, Nat.lt_succ_of_lt h, show bs.length - i = bs.length - 1 - i + 1 by omega]
      · simp [h, show 0 < w by omega]
      · have h1 : i - bs.length = i - (bs.length + 1) + 1 := by omega
        simp [hw, show ¬ i < bs.length by omega, show ¬ i < bs.length + 1 by omega, h1,
          show i - (bs.length + 1) + 1 < w by omega]
    · simp [hw]

theorem ofBits_msbBits (v : BitVec w) : ofBits (msbBits v) = v := by
  apply BitVec.eq_of_getLsbD_eq
  intro i hi
  rw [ofBits, shiftIn_getLsbD, length_msbBits]
  simp [msbBits, hi, BitVec.getMsbD_eq_getLsbD, show w - 1 - i < w by omega,
    show w - 1 - (w - 1 - i) = i by omega]

/-- The first `k` words of a stream of bits. -/
def words : Nat → List Bool → List (BitVec w)
  | 0, _ => []
  | k + 1, bs => ofBits (bs.take w) :: words k (bs.drop w)

theorem words_flatMap (vs : List (BitVec w)) : words vs.length (vs.flatMap msbBits) = vs := by
  induction vs with
  | nil => rfl
  | cons v vs ih =>
    have hlen := length_msbBits v
    rw [List.length_cons, List.flatMap_cons, words, List.take_append_of_le_length (by omega),
      List.take_of_length_le (by omega), ofBits_msbBits, List.drop_left' hlen, ih]

theorem shiftOut_eq (n : Nat) (v : BitVec w) : shiftOut n v = (List.range n).map v.getMsbD := by
  induction n generalizing v with
  | zero => rfl
  | succ n ih =>
    rw [shiftOut, ih, List.range_succ_eq_map, List.map_cons, List.map_map,
      BitVec.msb_eq_getMsbD_zero]
    congr 1
    apply List.map_congr_left
    intro i _
    rw [BitVec.getMsbD_shiftLeft]
    rfl

theorem twoPow_ne_zero {i : Nat} (h : i < w) : BitVec.twoPow w i ≠ 0#w := by
  intro h0
  have := congrArg (BitVec.getLsbD · i) h0
  simp [h] at this

theorem and_bit (v : BitVec w) (i : Nat) (h : i < w) :
    (v &&& BitVec.twoPow w i != 0) = v.getLsbD i := by
  rw [BitVec.and_twoPow]
  cases v.getLsbD i
  · simp
  · simpa using twoPow_ne_zero h

theorem and_bit_eq (v : BitVec w) (i : Nat) (h : i < w) :
    (v &&& BitVec.twoPow w i == BitVec.twoPow w i) = v.getLsbD i := by
  rw [BitVec.and_twoPow]
  cases v.getLsbD i
  · simpa using (twoPow_ne_zero h).symm
  · simp

theorem shiftConcat_eq (v : BitVec w) (x : Bool) :
    v.shiftConcat x = if x then v <<< 1 ||| 1 else v <<< 1 := by
  ext i hi
  cases x <;> by_cases h0 : i = 0 <;> simp [BitVec.getElem_shiftConcat, h0]

end DevBoards.Serial
