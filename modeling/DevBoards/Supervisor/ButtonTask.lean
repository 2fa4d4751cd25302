import DevBoards.Core.Machine

/-!
# The power button of the kup-lulz supervisor

`ButtonTask::Iteration` (kup-lulz/firmware/super/main/ButtonTask.h) looks
for a press with `m_pwrButton && !m_buttonDown` and then stores
`m_buttonDown = m_pwrButton`. `m_pwrButton` is a `GPIOPin`, so each mention
reads the pin again: an iteration takes two samples, and only the first is
compared with the last one stored.

The supervisor behind `g_super` is outside the repository; it is a parameter
(`Super`), and between two iterations it may do anything (`Reads.rest`).

* `calls_add_missed`: over any waveform, the calls made and the presses
  missed add up to the rising edges of the samples read.
* `press_toggles_iff`: every press toggles exactly once if and only if the
  button never goes down between the two reads of one iteration.
-/
namespace DevBoards.ButtonTask

/-- `g_super`: what `ButtonTask` uses of it. -/
structure Super (σ : Type) where
  isPowerOn : σ → Bool
  powerOn : σ → σ
  powerOff : σ → σ

inductive Call | powerOn | powerOff
deriving DecidableEq, Repr

/-- What one iteration meets: the level at each of the two reads of the pin,
and what the rest of the firmware does to the supervisor before the next. -/
structure Reads (σ : Type) where
  test : Bool
  store : Bool
  rest : σ → σ

structure St (σ : Type) where
  buttonDown : Bool
  super : σ

variable {σ : Type} (G : Super σ)

/-- The call made, with the supervisor just before it.
mirrors kup-lulz/firmware/super/main/ButtonTask.h:46-59 -/
def iteration (s : St σ) (r : Reads σ) : St σ × Option (Call × σ) :=
  if r.test && !s.buttonDown then
    if G.isPowerOn s.super then
      (⟨r.store, r.rest (G.powerOff s.super)⟩, some (.powerOff, s.super))
    else
      (⟨r.store, r.rest (G.powerOn s.super)⟩, some (.powerOn, s.super))
  else (⟨r.store, r.rest s.super⟩, none)

def task : Machine (St σ) (Reads σ) (Option (Call × σ)) := ⟨iteration G⟩

/-- mirrors kup-lulz/firmware/super/main/ButtonTask.h:38-41 -/
def init (sup : σ) : St σ := ⟨false, sup⟩

/-- The calls of a run, in order. -/
def calls (s : St σ) (rs : List (Reads σ)) : List (Call × σ) := ((task G).outs s rs).reduceOption

/-- Every sample of the pin, in the order read. -/
def samples (rs : List (Reads σ)) : List Bool := rs.flatMap fun r => [r.test, r.store]

/-- Low-to-high transitions of a waveform that was at `prev` before. -/
def rises : Bool → List Bool → Nat
  | _, [] => 0
  | prev, b :: bs => (if !prev && b then 1 else 0) + rises b bs

/-- The button goes down between the two reads of the iteration. -/
def Reads.between (r : Reads σ) : Bool := !r.test && r.store

/-- No press lost, none counted twice, and the right call each time. -/
def PressToggles (sup : σ) (rs : List (Reads σ)) : Prop :=
  (calls G (init sup) rs).length = rises false (samples rs) ∧
    ∀ c ∈ calls G (init sup) rs, c.1 = .powerOff ↔ G.isPowerOn c.2 = true

/-- What an iteration stores, and whether it calls. -/
theorem iteration_cases (s : St σ) (r : Reads σ) :
    (iteration G s r).1.buttonDown = r.store ∧
      ((iteration G s r).2.isSome = (!s.buttonDown && r.test)) := by
  unfold iteration
  cases r.test <;> cases s.buttonDown <;> simp
  split <;> simp

theorem iteration_call (s : St σ) (r : Reads σ) (c : Call × σ) (h : (iteration G s r).2 = some c) :
    c.1 = .powerOff ↔ G.isPowerOn c.2 = true := by
  unfold iteration at h
  split at h
  · split at h <;> rename_i hp
    · cases h; simp [hp]
    · cases h; simp [hp]
  · cases h

theorem calls_cons (s : St σ) (r : Reads σ) (rs : List (Reads σ)) :
    calls G s (r :: rs) = (iteration G s r).2.toList ++ calls G (iteration G s r).1 rs := by
  simp only [calls, task, Machine.outs_cons]
  cases (iteration G s r).2 <;> rfl

/-- **Conservation.** Calls and missed presses add up to the rising edges. -/
theorem calls_add_missed (s : St σ) (rs : List (Reads σ)) :
    (calls G s rs).length + rs.countP Reads.between = rises s.buttonDown (samples rs) := by
  induction rs generalizing s with
  | nil => rfl
  | cons r rs ih =>
    obtain ⟨hdown, hcall⟩ := iteration_cases G s r
    have hlen : (iteration G s r).2.toList.length = if !s.buttonDown && r.test then 1 else 0 := by
      rw [← hcall]; cases (iteration G s r).2 <;> rfl
    have hrest := ih (iteration G s r).1
    rw [hdown] at hrest
    have hsplit : rises s.buttonDown (samples (r :: rs)) =
        (if !s.buttonDown && r.test then 1 else 0) +
          ((if r.between then 1 else 0) + rises r.store (samples rs)) := rfl
    rw [calls_cons, List.length_append, hlen, List.countP_cons, hsplit, ← hrest]
    omega

/-- Every call of a run is the one the power state asks for. -/
theorem calls_right (s : St σ) (rs : List (Reads σ)) :
    ∀ c ∈ calls G s rs, c.1 = .powerOff ↔ G.isPowerOn c.2 = true := by
  induction rs generalizing s with
  | nil => intro c hc; cases hc
  | cons r rs ih =>
    intro c hc
    rw [calls_cons, List.mem_append, Option.mem_toList] at hc
    rcases hc with hc | hc
    · exact iteration_call G s r c hc
    · exact ih _ c hc

/-- **Every press toggles power exactly once, if and only if** no iteration
finds the button up at its first read and down at its second. -/
theorem press_toggles_iff (sup : σ) (rs : List (Reads σ)) :
    PressToggles G sup rs ↔ ∀ r ∈ rs, ¬ (r.test = false ∧ r.store = true) := by
  have hcount := calls_add_missed G (init sup) rs
  have hnone : rs.countP Reads.between = 0 ↔ ∀ r ∈ rs, ¬ (r.test = false ∧ r.store = true) := by
    simp [List.countP_eq_zero, Reads.between]
  rw [← hnone]
  constructor
  · rintro ⟨h, -⟩
    change _ = rises (init sup).buttonDown _ at h
    omega
  · intro h
    refine ⟨?_, calls_right G _ rs⟩
    change _ = rises (init sup).buttonDown _
    omega

/-- A press that lands between the two reads is lost. -/
theorem press_lost : ¬ PressToggles ⟨id, fun _ => true, fun _ => false⟩ false
    [⟨false, true, id⟩, ⟨true, true, id⟩] := by
  unfold PressToggles; decide

end DevBoards.ButtonTask
