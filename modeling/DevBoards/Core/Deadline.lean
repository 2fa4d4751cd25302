import Mathlib.Data.List.Chain
import DevBoards.Core.Machine

/-!
# A job polled against a deadline

Time is a natural number that never goes back. The job is polled: at time
`check` it compares its deadline with the time, and if the deadline has been
reached it runs (at `check`) and moves the deadline to `period` past the time
`set` at which it gets to do so. Polls come at most `d` apart and `set` is at
most `s` after `check` (`Paced`).

* `window`: every window of `period + s + d` ticks inside the run holds a call.
* `gaps`: two consecutive calls are at least `period` and at most
  `period + s + d` apart.
-/
namespace DevBoards.Deadline

structure Poll where
  check : Nat
  set : Nat

/-- The job's state is its deadline, its output the time it ran at. -/
def job (period : Nat) : Machine Nat Poll (Option Nat) where
  step dl p := if dl ≤ p.check then (p.set + period, some p.check) else (dl, none)

structure Paced (d s : Nat) (ps : List Poll) : Prop where
  set : ∀ p ∈ ps, p.check ≤ p.set ∧ p.set ≤ p.check + s
  gap : ps.IsChain fun p q => p.check ≤ q.check ∧ q.check ≤ p.check + d

variable {period d s dl : Nat} {p : Poll} {ps : List Poll}

theorem job_due (h : dl ≤ p.check) : (job period).step dl p = (p.set + period, some p.check) :=
  if_pos h

theorem job_wait (h : p.check < dl) : (job period).step dl p = (dl, none) :=
  if_neg (Nat.not_le.mpr h)

theorem outs_due (h : dl ≤ p.check) :
    (job period).outs dl (p :: ps) = some p.check :: (job period).outs (p.set + period) ps := by
  rw [Machine.outs_cons, job_due h]

theorem outs_wait (h : p.check < dl) :
    (job period).outs dl (p :: ps) = none :: (job period).outs dl ps := by
  rw [Machine.outs_cons, job_wait h]

theorem Paced.tail (h : Paced d s (p :: ps)) : Paced d s ps :=
  ⟨fun q hq => h.set q (List.mem_cons_of_mem p hq), h.gap.tail⟩

theorem Paced.next {q : Poll} (h : Paced d s (p :: q :: ps)) :
    p.check ≤ q.check ∧ q.check ≤ p.check + d :=
  (List.isChain_cons_cons.mp h.gap).1

/-- A call falls in `[w, w + period + s + d)` when the deadline is no later
than one set just before `w`, the next poll comes in time for it, and polling
goes on long enough. The induction carries the deadline across the polls
before `w`. -/
theorem hit (w : Nat) (hpos : 0 < period) :
    ∀ (ps : List Poll) (p : Poll) (dl : Nat), Paced d s (p :: ps) → dl < w + s + period →
      (p.check ≤ w + d ∨ p.check < dl + d) →
      (∃ q ∈ p :: ps, w + s + period ≤ q.check) →
      ∃ f, some f ∈ (job period).outs dl (p :: ps) ∧ w ≤ f ∧ f < w + (period + s + d) := by
  intro ps
  induction ps with
  | nil =>
    intro p dl _ hdl hp ⟨q, hq, hlast⟩
    obtain rfl := List.mem_singleton.mp hq
    have hdue : dl ≤ q.check := by omega
    exact ⟨q.check, by simp [outs_due hdue], by omega, by omega⟩
  | cons p' ps ih =>
    intro p dl hpaced hdl hp ⟨q, hq, hlast⟩
    have hset := hpaced.set p (List.mem_cons_self ..)
    have hgap := hpaced.next
    have later : p.check < w + s + period → ∃ q ∈ p' :: ps, w + s + period ≤ q.check := by
      intro hlt
      rcases List.mem_cons.mp hq with rfl | hq
      · omega
      · exact ⟨q, hq, hlast⟩
    by_cases hdue : dl ≤ p.check
    · by_cases hw : w ≤ p.check
      · exact ⟨p.check, by simp [outs_due hdue], hw, by omega⟩
      -- a call before the window: its deadline is still early enough
      · obtain ⟨f, hf, hb⟩ := ih p' (p.set + period) hpaced.tail (by omega) (.inl (by omega))
          (later (by omega))
        exact ⟨f, by rw [outs_due hdue]; exact List.mem_cons_of_mem _ hf, hb⟩
    · obtain ⟨f, hf, hb⟩ := ih p' dl hpaced.tail hdl (.inr (by omega)) (later (by omega))
      exact ⟨f, by rw [outs_wait (Nat.not_le.mp hdue)]; exact List.mem_cons_of_mem _ hf, hb⟩

/-- **Windows.** A job due when the run starts runs in every window of
`period + s + d` ticks of the run. The run starts at most `d` before the
first poll and ends at most `d` after the last. -/
theorem window (start stop : Nat) (hpos : 0 < period) (hpaced : Paced d s (p :: ps))
    (hdl : dl ≤ start) (hstart : p.check ≤ start + d)
    (hstop : ∃ q ∈ p :: ps, stop ≤ q.check + d) (w : Nat) (hw : start ≤ w)
    (hw' : w + (period + s + d) ≤ stop) :
    ∃ f, some f ∈ (job period).outs dl (p :: ps) ∧ w ≤ f ∧ f < w + (period + s + d) := by
  obtain ⟨q, hq, hle⟩ := hstop
  exact hit w hpos ps p dl hpaced (by omega) (.inl (by omega)) ⟨q, hq, by omega⟩

/-- The times the job ran at, in order. -/
def calls (period dl : Nat) (ps : List Poll) : List Nat := ((job period).outs dl ps).reduceOption

theorem calls_due (h : dl ≤ p.check) :
    calls period dl (p :: ps) = p.check :: calls period (p.set + period) ps := by
  rw [calls, outs_due h]; rfl

theorem calls_wait (h : p.check < dl) : calls period dl (p :: ps) = calls period dl ps := by
  rw [calls, outs_wait h]; rfl

/-- Two consecutive calls are neither too close nor too far apart. -/
def Gap (period s d f g : Nat) : Prop := f + period ≤ g ∧ g ≤ f + (period + s + d)

theorem gaps_from (f : Nat) (hlo : f + period ≤ dl) (hhi : dl ≤ f + s + period)
    (hpaced : Paced d s ps) (hnext : ∀ p ∈ ps.head?, p.check ≤ dl + d) :
    (f :: calls period dl ps).IsChain (Gap period s d) := by
  induction ps generalizing f dl with
  | nil => exact List.isChain_singleton f
  | cons p ps ih =>
    have hset := hpaced.set p (List.mem_cons_self ..)
    have hp := hnext p rfl
    have hhead : ∀ q ∈ ps.head?, q.check ≤ p.check + d := by
      intro q hq
      cases ps with
      | nil => cases hq
      | cons q' qs => cases hq; exact hpaced.next.2
    by_cases hdue : dl ≤ p.check
    · rw [calls_due hdue, List.isChain_cons_cons]
      exact ⟨⟨by omega, by omega⟩, ih p.check (by omega) (by omega) hpaced.tail
        fun q hq => by have := hhead q hq; omega⟩
    · rw [calls_wait (Nat.not_le.mp hdue)]
      exact ih f hlo hhi hpaced.tail fun q hq => by have := hhead q hq; omega

/-- **Gaps.** Consecutive calls of a run are `period` to `period + s + d` apart. -/
theorem gaps (hpaced : Paced d s ps) : (calls period dl ps).IsChain (Gap period s d) := by
  induction ps generalizing dl with
  | nil => exact List.isChain_nil
  | cons p ps ih =>
    have hset := hpaced.set p (List.mem_cons_self ..)
    by_cases hdue : dl ≤ p.check
    · rw [calls_due hdue]
      apply gaps_from p.check (by omega) (by omega) hpaced.tail
      intro q hq
      cases ps with
      | nil => cases hq
      | cons q' qs => cases hq; have := hpaced.next.2; omega
    · rw [calls_wait (Nat.not_le.mp hdue)]
      exact ih hpaced.tail

end DevBoards.Deadline
