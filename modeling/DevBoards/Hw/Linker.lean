import Mathlib.Tactic.TypeStar

/-!
# Section layout by a location counter

A linker script's output section is a list of commands that move the location
counter: `. = ALIGN(n)` rounds it up, `KEEP (*(s))` places a section there and
steps over it.

* `place_slots`: a script that aligns before every section gives the `i`-th
  one the `i`-th slot, whatever the sizes, as long as none is empty and none is
  longer than a slot.
* `finish_slots`: and it ends within as many slots as it has sections.
-/
namespace DevBoards.Linker

/-- `ALIGN(n)` at the location `dot`. -/
def alignUp (n dot : Nat) : Nat := (dot + (n - 1)) / n * n

theorem alignUp_of_dvd {n dot : Nat} (hn : 0 < n) (h : n ∣ dot) : alignUp n dot = dot := by
  obtain ⟨k, rfl⟩ := h
  unfold alignUp
  rw [Nat.mul_add_div hn, Nat.div_eq_of_lt (by omega), Nat.add_zero, Nat.mul_comm]

/-- A location within the slot at `dot` is rounded up to the next one. -/
theorem alignUp_add {n dot k : Nat} (h : n ∣ dot) (hk : 0 < k) (hkn : k ≤ n) :
    alignUp n (dot + k) = dot + n := by
  obtain ⟨q, rfl⟩ := h
  unfold alignUp
  have hsum : n * q + k + (n - 1) = n * (q + 1) + (k - 1) := by rw [Nat.mul_succ]; omega
  rw [hsum, Nat.mul_add_div (by omega), Nat.div_eq_of_lt (by omega), Nat.add_zero, Nat.mul_comm,
    Nat.mul_succ]

inductive Cmd (σ : Type*)
  /-- `. = ALIGN(n);` -/
  | align (n : Nat)
  /-- `KEEP (*(s))` -/
  | keep (s : σ)

variable {σ : Type*} [DecidableEq σ] (size : σ → Nat)

/-- The address given to the section `s`, from the location `dot` on. -/
def place (s : σ) : List (Cmd σ) → Nat → Option Nat
  | [], _ => none
  | .align n :: cmds, dot => place s cmds (alignUp n dot)
  | .keep t :: cmds, dot => if t = s then some dot else place s cmds (dot + size t)

/-- The location after the last command. -/
def finish : List (Cmd σ) → Nat → Nat
  | [], dot => dot
  | .align n :: cmds, dot => finish cmds (alignUp n dot)
  | .keep t :: cmds, dot => finish cmds (dot + size t)

/-- A memory region: where it starts and how long it is. -/
structure Region where
  origin : Nat
  length : Nat

/-- The address of `s` in an output section alone in its region. There is none
if the region overflows: the link fails. -/
def Region.address (r : Region) (cmds : List (Cmd σ)) (s : σ) : Option Nat :=
  if finish size cmds r.origin ≤ r.origin + r.length then place size s cmds r.origin else none

/-- Every section on an `n`-byte boundary of its own. -/
def slots (n : Nat) (ss : List σ) : List (Cmd σ) := ss.flatMap fun s => [.align n, .keep s]

theorem place_slots {n : Nat} {ss : List σ} (hsize : ∀ s ∈ ss, 0 < size s ∧ size s ≤ n) {s : σ}
    (hs : s ∈ ss) {dot base : Nat} (hbase : n ∣ base) (hdot : alignUp n dot = base) :
    place size s (slots n ss) dot = some (base + ss.idxOf s * n) := by
  induction ss generalizing dot base with
  | nil => cases hs
  | cons t ss ih =>
    show (if t = s then some (alignUp n dot)
      else place size s (slots n ss) (alignUp n dot + size t)) = _
    rw [hdot]
    split
    · rename_i hts
      rw [hts, List.idxOf_cons_self, Nat.zero_mul, Nat.add_zero]
    · rename_i hts
      obtain ⟨hpos, hle⟩ := hsize t (List.mem_cons_self ..)
      have hmem : s ∈ ss := (List.mem_cons.mp hs).resolve_left fun h => hts h.symm
      have hnext : n ∣ base + n := (Nat.dvd_add_right hbase).mpr (Nat.dvd_refl n)
      rw [ih (fun u hu => hsize u (List.mem_cons_of_mem t hu)) hmem hnext
        (alignUp_add hbase hpos hle), List.idxOf_cons, beq_false_of_ne hts, cond_false,
        Nat.succ_mul]
      congr 1
      omega

omit [DecidableEq σ] in
theorem finish_slots {n : Nat} {ss : List σ} (hsize : ∀ s ∈ ss, 0 < size s ∧ size s ≤ n)
    {dot base : Nat} (hbase : n ∣ base) (hdot : alignUp n dot = base) (hle : dot ≤ base) :
    finish size (slots n ss) dot ≤ base + ss.length * n := by
  induction ss generalizing dot base with
  | nil => exact Nat.le_add_right_of_le hle
  | cons t ss ih =>
    show finish size (slots n ss) (alignUp n dot + size t) ≤ _
    rw [hdot]
    obtain ⟨hpos, hlen⟩ := hsize t (List.mem_cons_self ..)
    have hnext : n ∣ base + n := (Nat.dvd_add_right hbase).mpr (Nat.dvd_refl n)
    have hrest := ih (fun u hu => hsize u (List.mem_cons_of_mem t hu)) hnext
      (alignUp_add hbase hpos hlen) (Nat.add_le_add_left hlen base)
    rw [List.length_cons, Nat.succ_mul]
    omega

theorem place_not_mem {n : Nat} {ss : List σ} {s : σ} (hs : s ∉ ss) (dot : Nat) :
    place size s (slots n ss) dot = none := by
  induction ss generalizing dot with
  | nil => rfl
  | cons t ss ih =>
    show (if t = s then some (alignUp n dot) else place size s (slots n ss) _) = none
    rw [if_neg fun hts => hs (List.mem_cons.mpr (.inl hts.symm))]
    exact ih (fun h => hs (List.mem_cons_of_mem t h)) _

theorem Region.address_not_mem (r : Region) {n : Nat} {ss : List σ} {s : σ} (hs : s ∉ ss) :
    r.address size (slots n ss) s = none := by
  unfold Region.address
  rw [place_not_mem size hs, ite_self]

/-- **Slot rule.** From an aligned origin, the `i`-th section is at the `i`-th slot. -/
theorem Region.address_slots (r : Region) {n : Nat} (hn : 0 < n) {ss : List σ}
    (hsize : ∀ s ∈ ss, 0 < size s ∧ size s ≤ n) (horigin : n ∣ r.origin)
    (hroom : ss.length * n ≤ r.length) {s : σ} (hs : s ∈ ss) :
    r.address size (slots n ss) s = some (r.origin + ss.idxOf s * n) := by
  have hdot : alignUp n r.origin = r.origin := alignUp_of_dvd hn horigin
  have hend := finish_slots size hsize horigin hdot (Nat.le_refl _)
  unfold Region.address
  rw [if_pos (by omega), place_slots size hsize hs horigin hdot]

end DevBoards.Linker
