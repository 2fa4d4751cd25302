import Mathlib.Data.List.ReduceOption
import DevBoards.Supervisor.Blink

/-!
# When the boot blink stops for good

A toggle that reads 57500 sets `nextBlink` to 60000, which is `g_logTimerMax`
itself and so is not folded back. `UpdateOffset` moves the counter back as soon
as it shows 60000, and only then does `UpdateLEDs` look: unless the counter
gets there between the two, the LED never toggles again.

* `freezes_iff`: over any run from boot, what it takes to toggle again.
-/
namespace DevBoards.Supervisor.Blink

/-- From `t` on, each iteration ends within three seconds of the one before. -/
structure Brisk (t : Nat) (is : List Input) : Prop where
  start : ∀ i ∈ is.head?, t ≤ i.offset ∧ i.now ≤ t + 30000
  order : ∀ i ∈ is, i.offset ≤ i.now
  next : is.IsChain fun i j => i.now ≤ j.offset ∧ j.now ≤ i.now + 30000

/-- A multiple of `g_logTimerMax` is reached between the two reads of the counter. -/
def Crosses (base : Nat) (i : Input) : Prop := (i.offset - base) / 60000 ≠ (i.now - base) / 60000

instance (base : Nat) (i : Input) : Decidable (Crosses base i) := by
  unfold Crosses; exact inferInstance

/-- After an iteration that ended at `t`: the counter has been moved back by
whole wraps, and shows at most a wrap and a half. -/
structure Wound (base t : Nat) (s : St) : Prop where
  epoch : 60000 ∣ s.base - base
  start : base ≤ s.base
  reached : s.base ≤ t
  bound : t < s.base + 90000

variable {base t : Nat} {s : St} {i : Input}

/-- What `UpdateLEDs` finds: a counter that was moved back as far as it goes. -/
theorem wound_offset (h : Wound base t s) (hoffset : t ≤ i.offset) (hi : i.offset ≤ t + 30000) :
    60000 ∣ (afterOffset s i).base - base ∧ base ≤ (afterOffset s i).base ∧
      (afterOffset s i).base ≤ i.offset ∧ i.offset < (afterOffset s i).base + 60000 := by
  obtain ⟨⟨e, he⟩, hstart, hreached, hbound⟩ := h
  have hmax : logTimerMax.toNat = 60000 := rfl
  have hdue := s.due_iff logTimerMax i.offset (by omega) (by omega)
  by_cases hmove : logTimerMax ≤ s.getCount i.offset
  · have hbase : (afterOffset s i).base = s.base + 60000 := by
      unfold afterOffset LogTimer.updateOffset
      rw [if_pos hmove]
      rfl
    have := hdue.mp hmove
    rw [hbase]
    exact ⟨⟨e + 1, by omega⟩, by omega, by omega, by omega⟩
  · have hbase : (afterOffset s i).base = s.base := by
      unfold afterOffset LogTimer.updateOffset
      rw [if_neg hmove]
    have := mt hdue.mpr hmove
    rw [hbase]
    exact ⟨⟨e, he⟩, hstart, by omega, by omega⟩

theorem base_iteration (s : St) (h : Booting i) :
    (iteration s i).1.base = (afterOffset s i).base := by
  unfold iteration
  by_cases hdue : (afterOffset s i).nextBlink ≤ (afterOffset s i).getCount i.now
  · rw [updateLEDs_due h hdue]
  · rw [updateLEDs_wait h hdue]

/-- **One iteration.** -/
theorem wound_step (h : Wound base t s) (hboot : Booting i) (hoffset : t ≤ i.offset) (horder : i.offset ≤ i.now)
    (hnow : i.now ≤ t + 30000) : Wound base i.now (iteration s i).1 := by
  obtain ⟨hepoch, hstart, hlo, hhi⟩ := wound_offset h hoffset (by omega)
  constructor
  · rw [base_iteration s hboot]
    exact hepoch
  · rw [base_iteration s hboot]
    exact hstart
  · rw [base_iteration s hboot]
    omega
  · rw [base_iteration s hboot]
    omega

/-- With `nextBlink` at 60000, an iteration toggles just if it crosses a wrap. -/
theorem due_crosses (h : Wound base t s) (hoffset : t ≤ i.offset) (horder : i.offset ≤ i.now)
    (hnow : i.now ≤ t + 30000) (hblink : s.nextBlink = logTimerMax) :
    (afterOffset s i).nextBlink ≤ (afterOffset s i).getCount i.now ↔ Crosses base i := by
  obtain ⟨⟨e, he⟩, hstart, hlo, hhi⟩ := wound_offset h hoffset (by omega)
  have hnext : (afterOffset s i).nextBlink.toNat = 60000 := congrArg UInt32.toNat hblink
  rw [LogTimer.due_iff _ _ _ (by omega) (by omega), hnext]
  unfold Crosses
  omega

/-! ## Runs -/

variable {is : List Input} {g : Lag}

theorem Brisk.head (h : Brisk t (i :: is)) :
    t ≤ i.offset ∧ i.offset ≤ i.now ∧ i.now ≤ t + 30000 :=
  ⟨(h.start i rfl).1, h.order i (List.mem_cons_self ..), (h.start i rfl).2⟩

theorem Brisk.tail (h : Brisk t (i :: is)) : Brisk i.now is := by
  refine ⟨?_, fun j hj => h.order j (List.mem_cons_of_mem i hj), h.next.tail⟩
  intro j hj
  cases is with
  | nil => cases hj
  | cons j' js =>
    cases hj
    exact (List.isChain_cons_cons.mp h.next).1

theorem wound_run (pre : List Input) (h : Wound base t s) (hbrisk : Brisk t (pre ++ is))
    (hboot : ∀ j ∈ pre, Booting j) :
    ∃ t', Wound base t' (loop.final (s, g) pre).1 ∧ Brisk t' is := by
  induction pre generalizing s g t with
  | nil => exact ⟨t, h, hbrisk⟩
  | cons i pre ih =>
    obtain ⟨hoffset, horder, hnow⟩ := hbrisk.head
    exact ih (wound_step h (hboot i (List.mem_cons_self ..)) hoffset horder hnow) hbrisk.tail
      fun j hj => hboot j (List.mem_cons_of_mem i hj)

/-- **Frozen.** With `nextBlink` at 60000, no toggle without a crossing. -/
theorem frozen_run (h : Wound base t s) (hblink : s.nextBlink = logTimerMax) (hbrisk : Brisk t is)
    (hboot : ∀ j ∈ is, Booting j) :
    (loop.outs (s, g) is).reduceOption = [] ↔ ∀ j ∈ is, ¬ Crosses base j := by
  induction is generalizing s g t with
  | nil => exact iff_of_true rfl (fun j hj => absurd hj List.not_mem_nil)
  | cons i is ih =>
    obtain ⟨hoffset, horder, hnow⟩ := hbrisk.head
    have hi := hboot i (List.mem_cons_self ..)
    have hdue := due_crosses h hoffset horder hnow hblink
    rw [Machine.outs_cons, List.forall_mem_cons]
    by_cases hcross : Crosses base i
    · have hout : (loop.step (s, g) i).2 = some i.now :=
        congrArg Prod.snd (updateLEDs_due hi (hdue.mpr hcross))
      rw [hout, List.reduceOption_cons_of_some]
      exact iff_of_false (List.cons_ne_nil _ _) fun hall => hall.1 hcross
    · have hwait := updateLEDs_wait hi (mt hdue.mp hcross)
      have hout : (loop.step (s, g) i).2 = none := congrArg Prod.snd hwait
      have hsame : (iteration s i).1.nextBlink = logTimerMax :=
        (congrArg (fun r => r.1.nextBlink) hwait).trans hblink
      rw [hout, List.reduceOption_cons_of_none]
      have hrest := ih (g := lagAfter s g i) (wound_step h hi hoffset horder hnow) hsame hbrisk.tail
        fun j hj => hboot j (List.mem_cons_of_mem i hj)
      exact ⟨fun hnone => ⟨hcross, hrest.mp hnone⟩, fun hall => hrest.mpr hall.2⟩

/-- **The blink that stops.** In any booting run whose iterations take less than
three seconds: after a toggle at which the counter shows 57500, the LED toggles
again just if some iteration is under way when a wrap of the counter is due. -/
theorem freezes_iff (base : Nat) (pre is : List Input) (i : Input)
    (hbrisk : Brisk base (pre ++ i :: is)) (hboot : ∀ j ∈ pre ++ i :: is, Booting j)
    (htoggle : (iteration (loop.final (boot base, none) pre).1 i).2 = some i.now)
    (hread : (afterOffset (loop.final (boot base, none) pre).1 i).getCount i.now = 57500) :
    toggles base (pre ++ i :: is) = toggles base (pre ++ [i]) ↔ ∀ j ∈ is, ¬ Crosses base j := by
  have hfirst : Wound base base (boot base) :=
    ⟨⟨0, Nat.sub_self base⟩, Nat.le_refl _, Nat.le_refl _, Nat.lt_add_of_pos_right (by decide)⟩
  have hi := hboot i (List.mem_append_right _ (List.mem_cons_self ..))
  obtain ⟨t, hwound, hrest⟩ := wound_run (g := none) pre hfirst hbrisk
    fun j hj => hboot j (List.mem_append_left _ hj)
  obtain ⟨hoffset, horder, hnow⟩ := hrest.head
  generalize hs : loop.final (boot base, none) pre = s at *
  -- the toggle leaves the deadline at `g_logTimerMax`
  have hblink : (iteration s.1 i).1.nextBlink = logTimerMax := by
    by_cases hdue : (afterOffset s.1 i).nextBlink ≤ (afterOffset s.1 i).getCount i.now
    · have hset := congrArg (fun r => r.1.nextBlink) (updateLEDs_due hi hdue)
      dsimp only at hset
      rw [hread] at hset
      exact hset.trans (by decide)
    · exact absurd (htoggle.symm.trans (congrArg Prod.snd (updateLEDs_wait hi hdue))) nofun
  have hsplit : toggles base (pre ++ i :: is) = toggles base (pre ++ [i]) ++
      (loop.outs (loop.step s i).1 is).reduceOption := by
    unfold toggles
    rw [← List.singleton_append, ← List.append_assoc, loop.outs_append, List.reduceOption_append,
      loop.final_append, hs]
    rfl
  rw [hsplit, List.append_right_eq_self]
  exact frozen_run (wound_step hwound hi hoffset horder hnow) hblink hrest.tail
    fun j hj => hboot j (List.mem_append_right _ (List.mem_cons_of_mem i hj))

/-- An iteration every 2500 ticks: the toggle at 57500 is the last. -/
theorem freezes_iff_steady :
    toggles 0 (steadyBoot 2500 24 ++ [⟨60000, 60000, true, false⟩, ⟨90000, 90000, true, false⟩]) =
      toggles 0 (steadyBoot 2500 24) := by
  have hsteady : steadyBoot 2500 24 = steadyBoot 2500 23 ++ [⟨57500, 57500, true, false⟩] := by decide
  rw [hsteady, List.append_assoc]
  exact (freezes_iff 0 (steadyBoot 2500 23)
    [⟨60000, 60000, true, false⟩, ⟨90000, 90000, true, false⟩] ⟨57500, 57500, true, false⟩
    ⟨by decide, by decide, by decide⟩ (by decide) (by decide +kernel) (by decide +kernel)).mpr
    (by decide)

end DevBoards.Supervisor.Blink
