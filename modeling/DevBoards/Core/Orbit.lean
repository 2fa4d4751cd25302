import Mathlib.Data.FinEnum
import Mathlib.Dynamics.PeriodicPts.Lemmas

/-!
# Full orbits

A map on a finite type that misses one point only on its way round visits
every other point exactly once a period, so over a period it meets each
property as often as the points that have it.

* `minimalPeriod_eq_of_prime_div`: a period is the least one if it is no period
  divided by any of its primes.
* `countP_orbit`: how often a property holds along a full orbit.
* `card_low_bits`: how many words end in given bits.
-/
namespace DevBoards.Orbit
open Function

section period
variable {α : Type*} {f : α → α} {x : α} {n : Nat}

theorem minimalPeriod_eq_of_prime_div (h : IsPeriodicPt f n x)
    (hp : ∀ p, p.Prime → p ∣ n → ¬ IsPeriodicPt f (n / p) x) : minimalPeriod f x = n := by
  obtain ⟨k, hk⟩ := h.minimalPeriod_dvd
  by_cases h1 : k = 1
  · rw [hk, h1, Nat.mul_one]
  · -- a prime of the cofactor divides a period too many
    have hprime := Nat.minFac_prime h1
    obtain ⟨m, hm⟩ := Nat.minFac_dvd k
    have hn' : n = k.minFac * (minimalPeriod f x * m) :=
      calc n = minimalPeriod f x * k := hk
        _ = minimalPeriod f x * (k.minFac * m) := by rw [← hm]
        _ = k.minFac * (minimalPeriod f x * m) := by rw [Nat.mul_left_comm]
    refine absurd ?_ (hp k.minFac hprime ⟨_, hn'⟩)
    have hdiv : n / k.minFac = minimalPeriod f x * m := by
      rw [hn', Nat.mul_div_cancel_left _ hprime.pos]
    rw [hdiv]
    exact (isPeriodicPt_minimalPeriod f x).mul_const m

end period

section count
variable {α : Type*} [Fintype α] [DecidableEq α] {f : α → α} {x z : α}

/-- The points on the way round. -/
def orbit (f : α → α) (x : α) (n : Nat) : List α := (List.range n).map fun k => f^[k] x

/-- **Counting rule.** Every point but `z` is on the orbit of `x`, once. -/
theorem countP_orbit (hx : ∀ n, f^[n] x ≠ z) (hperiod : minimalPeriod f x + 1 = Fintype.card α)
    (p : α → Bool) :
    (orbit f x (minimalPeriod f x)).countP p = (Finset.univ.filter fun a => a ≠ z ∧ p a).card := by
  have hnodup : (orbit f x (minimalPeriod f x)).Nodup := by
    refine List.Nodup.map_on ?_ List.nodup_range
    intro i hi j hj hij
    exact iterate_injOn_Iio_minimalPeriod (List.mem_range.mp hi) (List.mem_range.mp hj) hij
  have hsub : (orbit f x (minimalPeriod f x)).toFinset ⊆ Finset.univ.erase z := by
    intro a ha
    obtain ⟨k, -, rfl⟩ := List.mem_map.mp (List.mem_toFinset.mp ha)
    exact Finset.mem_erase.mpr ⟨hx k, Finset.mem_univ _⟩
  have hcard : (Finset.univ.erase z).card ≤ (orbit f x (minimalPeriod f x)).toFinset.card := by
    rw [List.toFinset_card_of_nodup hnodup, Finset.card_erase_of_mem (Finset.mem_univ z),
      Finset.card_univ, ← hperiod]
    simp [orbit]
  have hall : (orbit f x (minimalPeriod f x)).toFinset = Finset.univ.erase z :=
    Finset.eq_of_subset_of_card_le hsub hcard
  have hset : Finset.univ.filter (fun a => a ≠ z ∧ p a) =
      ((orbit f x (minimalPeriod f x)).filter p).toFinset := by
    ext a
    rw [List.toFinset_filter, hall]
    simp
  rw [hset, List.toFinset_card_of_nodup (hnodup.filter p), List.countP_eq_length_filter]

end count

/-! ## Words by their low bits -/

variable {w n : Nat}

theorem card_word (w : Nat) : Fintype.card (BitVec w) = 2 ^ w := by
  rw [← FinEnum.card_eq_fintypeCard]
  exact FinEnum.card_bitVec w

/-- Of the words of `w` bits, `2 ^ (w - n)` end in the `n` bits given. -/
theorem card_low_bits (h : n ≤ w) (u : BitVec n) :
    (Finset.univ.filter fun x : BitVec w => x.setWidth n = u).card = 2 ^ (w - n) := by
  obtain ⟨m, rfl⟩ := Nat.exists_eq_add_of_le' h
  have hset : Finset.univ.filter (fun x : BitVec (m + n) => x.setWidth n = u) =
      Finset.univ.image fun y : BitVec m => y ++ u := by
    ext x
    simp only [Finset.mem_filter, Finset.mem_univ, true_and, Finset.mem_image]
    constructor
    · intro hx
      refine ⟨x.extractLsb' n m, ?_⟩
      rw [← hx, BitVec.setWidth_eq_extractLsb' h]
      exact BitVec.extractLsb'_append_extractLsb'
    · rintro ⟨y, rfl⟩
      exact BitVec.setWidth_append_eq_right
  have hinj : Function.Injective fun y : BitVec m => y ++ u := by
    intro y y' h
    have := congrArg (BitVec.extractLsb' n m) h
    simpa only [BitVec.extractLsb'_append_eq_left] using this
  rw [hset, Finset.card_image_of_injective _ hinj, Finset.card_univ, card_word, Nat.add_sub_cancel]

/-- Leaving out 0 takes one from the words that end in zeros. -/
theorem card_low_bits_ne_zero (h : n ≤ w) (u : BitVec n) :
    (Finset.univ.filter fun x : BitVec w => x ≠ 0#w ∧ x.setWidth n = u).card =
      2 ^ (w - n) - if u = 0#n then 1 else 0 := by
  have hset : Finset.univ.filter (fun x : BitVec w => x ≠ 0#w ∧ x.setWidth n = u) =
      (Finset.univ.filter fun x : BitVec w => x.setWidth n = u).erase 0#w := by
    ext x
    simp
  rw [hset, Finset.card_erase_eq_ite, card_low_bits h]
  by_cases hu : u = 0#n
  · subst hu
    simp
  · have hu' : ¬ 0#n = u := fun h => hu h.symm
    simp [hu, hu']

end DevBoards.Orbit
