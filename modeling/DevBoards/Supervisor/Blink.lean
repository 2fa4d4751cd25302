import DevBoards.Core.Deadline
import DevBoards.Hw.LogTimer

/-!
# The boot blink of the fpga-stm32-ifaces supervisor

`UpdateLEDs` (fpga-stm32-ifaces/firmware/super/main/mainloop.cpp) blinks
`g_sysokLED` while the resets run. Its deadline `nextBlink` is folded back by
`g_logTimerMax` as soon as it is computed, if it lies beyond; the counter is
moved back by `UpdateOffset` only once it gets there. In between, deadline and
counter are in different epochs, and `now >= nextBlink` compares across them.

Time is the real time in ticks, as in `LogTimer`. `Lag` counts, since the last
toggle, the foldings of `nextBlink` less the moves of the counter; it is
bookkeeping, the code has no such variable.

* `blink_paced`: while deadline and counter are in the same epoch at every
  comparison, toggles come 2500 to 2500 + d ticks apart.
* `blink_doubles`: a run, from boot, that toggles twice within one tick.
-/
namespace DevBoards.Supervisor.Blink

open Deadline (Poll)

/-- mirrors fpga-stm32-ifaces/firmware/super/main/mainloop.cpp:143 -/
def logTimerMax : UInt32 := 60000

/-- mirrors fpga-stm32-ifaces/firmware/super/main/mainloop.cpp:178 -/
def blinkDelay : UInt32 := 2500

structure St extends LogTimer where
  nextBlink : UInt32
  pgoodLED : Bool
  sysokLED : Bool
deriving DecidableEq, Repr

/-- One iteration: the real times at which it calls `UpdateOffset` and reads
the counter in `UpdateLEDs`, and what the supervisor answers. -/
structure Input where
  offset : Nat
  now : Nat
  isPowerOn : Bool
  isResetsDone : Bool
deriving DecidableEq, Repr

/-- mirrors fpga-stm32-ifaces/firmware/super/main/mainloop.cpp:177 and
fpga-stm32-ifaces/firmware/super/bsp/hwinit.cpp:130-133 -/
def boot (base : Nat) : St := ⟨⟨base⟩, 0, false, false⟩

/-- The deadline set by a toggle that read `now`.
mirrors fpga-stm32-ifaces/firmware/super/main/mainloop.cpp:184-186 -/
def foldedBlink (now : UInt32) : UInt32 :=
  if now + blinkDelay > logTimerMax then now + blinkDelay - logTimerMax else now + blinkDelay

/-- The output is the time of the toggle, if the LED was toggled.
mirrors fpga-stm32-ifaces/firmware/super/main/mainloop.cpp:163-192 -/
def updateLEDs (s : St) (i : Input) : St × Option Nat :=
  let s := { s with pgoodLED := i.isPowerOn }
  if i.isPowerOn then
    if i.isResetsDone then ({ s with sysokLED := true }, none)
    else
      let now := s.getCount i.now
      if now ≥ s.nextBlink then
        ({ s with sysokLED := !s.sysokLED, nextBlink := foldedBlink now }, some i.now)
      else (s, none)
  else ({ s with sysokLED := false }, none)

/-- `g_log.UpdateOffset(g_logTimerMax)`.
mirrors fpga-stm32-ifaces/firmware/super/main/mainloop.cpp:148 -/
def afterOffset (s : St) (i : Input) : St :=
  { s with toLogTimer := (s.updateOffset logTimerMax i.offset).1 }

/-- mirrors fpga-stm32-ifaces/firmware/super/main/mainloop.cpp:145-158 -/
def iteration (s : St) (i : Input) : St × Option Nat :=
  updateLEDs (afterOffset s i) i

/-! ## Epochs -/

/-- Foldings of `nextBlink` less moves of the counter since the last toggle;
`none` before the first. -/
abbrev Lag := Option Int

/-- The lag at the comparison. -/
def lagAt (s : St) (g : Lag) (i : Input) : Lag :=
  if logTimerMax ≤ s.getCount i.offset then g.map (· - 1) else g

/-- The lag after the iteration. -/
def lagAfter (s : St) (g : Lag) (i : Input) : Lag :=
  if (iteration s i).2.isSome then
    let now := (afterOffset s i).getCount i.now
    some (if now + blinkDelay > logTimerMax then 1 else 0)
  else lagAt s g i

def loop : Machine (St × Lag) Input (Option Nat) where
  step := fun (s, g) i => (((iteration s i).1, lagAfter s g i), (iteration s i).2)

/-- At the comparison, `nextBlink` has been folded exactly as often as the
counter has been moved back since it was set, and less than 2^32 - `blinkDelay`
ticks of real time have passed since the counter was at 0. -/
def SameEpoch : St × Lag → Input → Prop := fun (s, g) i =>
  (∀ l ∈ lagAt s g i, l = 0) ∧
    i.now < (afterOffset s i).base + (2 ^ 32 - blinkDelay.toNat)

instance (s : St × Lag) (i : Input) : Decidable (SameEpoch s i) := by
  unfold SameEpoch; exact inferInstance

/-- The supervisor is booting: power on, resets not done. -/
def Booting (i : Input) : Prop := i.isPowerOn = true ∧ i.isResetsDone = false

instance (i : Input) : Decidable (Booting i) := by unfold Booting; exact inferInstance

/-- Successive readings of the counter are at most `d` apart. -/
structure Paced (d base : Nat) (is : List Input) : Prop where
  start : ∀ i ∈ is.head?, base ≤ i.offset
  order : ∀ i ∈ is, i.offset ≤ i.now
  next : is.IsChain fun i j => i.now ≤ j.offset ∧ j.now ≤ i.now + d

/-- The times of the toggles. -/
def toggles (base : Nat) (is : List Input) : List Nat :=
  (loop.outs (boot base, none) is).reduceOption

/-- Two consecutive toggles are at least 2500 and at most 2500 + d apart. -/
def BlinksAtRate (d base : Nat) (is : List Input) : Prop :=
  (toggles base is).IsChain fun f g => f + 2500 ≤ g ∧ g ≤ f + 2500 + d

instance (d base : Nat) (is : List Input) : Decidable (BlinksAtRate d base is) := by
  unfold BlinksAtRate; exact inferInstance

/-! ## The deadline in real time -/

/-- Corrected by the lag, `nextBlink` is the real-time deadline `dl`. -/
def Tracks (s : St) (dl : Nat) : Lag → Prop
  | none => s.nextBlink = 0 ∧ dl = 0
  | some l => (s.nextBlink.toNat : Int) + s.base + 60000 * l = dl

theorem afterOffset_base_le (s : St) (i : Input) (h : s.base ≤ i.offset) :
    (afterOffset s i).base ≤ i.offset := by
  unfold afterOffset LogTimer.updateOffset
  split
  · exact s.base_add_le ‹_› (by decide)
  · exact h

theorem tracks_offset {s : St} {dl : Nat} {g : Lag} (h : Tracks s dl g) (i : Input) :
    Tracks (afterOffset s i) dl (lagAt s g i) := by
  unfold afterOffset LogTimer.updateOffset lagAt
  split
  · cases g with
    | none => exact h
    | some l =>
      simp only [Tracks, Option.map_some, logTimerMax, UInt32.reduceToNat] at h ⊢
      omega
  · exact h

theorem foldedBlink_spec (l : LogTimer) (t : Nat) (hb : l.base ≤ t)
    (ht : t < l.base + (2 ^ 32 - blinkDelay.toNat)) :
    ((foldedBlink (l.getCount t)).toNat : Int) + l.base +
        60000 * (if l.getCount t + blinkDelay > logTimerMax then 1 else 0) =
      ((t + 2500 : Nat) : Int) := by
  have hd : blinkDelay.toNat = 2500 := rfl
  have hm : logTimerMax.toNat = 60000 := rfl
  have hadd : (l.getCount t + blinkDelay).toNat = t - l.base + 2500 := by
    rw [UInt32.toNat_add, l.toNat_getCount t (by omega), hd, Nat.mod_eq_of_lt (by omega)]
  unfold foldedBlink
  by_cases hf : l.getCount t + blinkDelay > logTimerMax
  · have hlt : logTimerMax.toNat < (l.getCount t + blinkDelay).toNat := UInt32.lt_iff_toNat_lt.mp hf
    rw [if_pos hf, if_pos hf, UInt32.toNat_sub, hadd, hm]
    omega
  · rw [if_neg hf, if_neg hf, hadd]
    omega

/-- In the same epoch the comparison is the one of the real-time deadline. -/
theorem due_iff {s : St} {dl : Nat} {g : Lag} (h : Tracks s dl g) (hg : ∀ l ∈ g, l = 0) (t : Nat)
    (hb : s.base ≤ t) (ht : t < s.base + 2 ^ 32) : s.nextBlink ≤ s.getCount t ↔ dl ≤ t := by
  cases g with
  | none =>
    obtain ⟨h1, h2⟩ := h
    simp [h1, h2]
  | some l =>
    obtain rfl := hg l rfl
    simp only [Tracks] at h
    rw [s.due_iff s.nextBlink t hb ht]
    omega

theorem updateLEDs_due {s : St} {i : Input} (hboot : Booting i)
    (h : s.nextBlink ≤ s.getCount i.now) :
    updateLEDs s i =
      ({ s with pgoodLED := true, sysokLED := !s.sysokLED,
                nextBlink := foldedBlink (s.getCount i.now) }, some i.now) := by
  unfold updateLEDs
  rw [hboot.1, hboot.2]
  exact if_pos h

theorem updateLEDs_wait {s : St} {i : Input} (hboot : Booting i)
    (h : ¬ s.nextBlink ≤ s.getCount i.now) :
    updateLEDs s i = ({ s with pgoodLED := true }, none) := by
  unfold updateLEDs
  rw [hboot.1, hboot.2]
  exact if_neg h

theorem lagAfter_some {s : St} {i : Input} {t : Nat} (g : Lag) (h : (iteration s i).2 = some t) :
    lagAfter s g i =
      some (if (afterOffset s i).getCount i.now + blinkDelay > logTimerMax then 1 else 0) := by
  unfold lagAfter; rw [h]; rfl

theorem lagAfter_none {s : St} {i : Input} (g : Lag) (h : (iteration s i).2 = none) :
    lagAfter s g i = lagAt s g i := by
  unfold lagAfter; rw [h]; rfl

/-- One booting iteration in the same epoch is a step of the polled job. -/
theorem iteration_spec {s : St} {dl : Nat} {g : Lag} {i : Input} (h : Tracks s dl g)
    (hboot : Booting i) (hbase : s.base ≤ i.offset) (horder : i.offset ≤ i.now)
    (hsame : SameEpoch (s, g) i) :
    Tracks (iteration s i).1 ((Deadline.job 2500).step dl ⟨i.now, i.now⟩).1 (lagAfter s g i) ∧
      (iteration s i).2 = ((Deadline.job 2500).step dl ⟨i.now, i.now⟩).2 ∧
      (iteration s i).1.base ≤ i.now := by
  obtain ⟨hlag, hroom⟩ := hsame
  have hoff := tracks_offset h i
  have hle := afterOffset_base_le s i hbase
  have hdelay : blinkDelay.toNat = 2500 := rfl
  have hdue := due_iff hoff hlag i.now (by omega) (by omega)
  by_cases hd : dl ≤ i.now
  · have hit : iteration s i = _ := updateLEDs_due hboot (hdue.mpr hd)
    have hg := lagAfter_some g (congrArg Prod.snd hit)
    rw [hg, hit, Deadline.job_due (p := ⟨i.now, i.now⟩) hd]
    refine ⟨?_, rfl, Nat.le_trans hle horder⟩
    simp only [Tracks]
    exact foldedBlink_spec (afterOffset s i).toLogTimer i.now (by omega) hroom
  · have hit : iteration s i = _ := updateLEDs_wait hboot (fun hle => hd (hdue.mp hle))
    have hg := lagAfter_none g (congrArg Prod.snd hit)
    rw [hg, hit, Deadline.job_wait (p := ⟨i.now, i.now⟩) (Nat.not_le.mp hd)]
    exact ⟨hoff, rfl, Nat.le_trans hle horder⟩

/-! ## Runs -/

def Input.poll (i : Input) : Poll := ⟨i.now, i.now⟩

variable {d : Nat}

theorem Paced.tail {base base' : Nat} {i : Input} {is : List Input} (h : Paced d base (i :: is))
    (hbase : base' ≤ i.now) : Paced d base' is := by
  refine ⟨?_, fun j hj => h.order j (List.mem_cons_of_mem i hj), h.next.tail⟩
  intro j hj
  cases is with
  | nil => cases hj
  | cons j' js =>
    cases hj
    exact Nat.le_trans hbase (List.isChain_cons_cons.mp h.next).1.1

theorem Paced.poll {base : Nat} {is : List Input} (h : Paced d base is) :
    Deadline.Paced d 0 (is.map Input.poll) := by
  refine ⟨?_, ?_⟩
  · intro p hp
    obtain ⟨i, -, rfl⟩ := List.mem_map.mp hp
    exact ⟨Nat.le_refl _, Nat.le_refl _⟩
  · rw [List.isChain_map]
    apply h.next.imp_of_mem_imp
    intro i j _ hj hij
    exact ⟨Nat.le_trans hij.1 (h.order j hj), hij.2⟩

/-- A booting run in one epoch toggles when the polled job runs. -/
theorem outs_eq_job (is : List Input) (s : St) (g : Lag) (dl : Nat) (h : Tracks s dl g)
    (hp : Paced d s.base is) (hboot : ∀ i ∈ is, Booting i)
    (hsame : loop.Along SameEpoch (s, g) is) :
    loop.outs (s, g) is = (Deadline.job 2500).outs dl (is.map Input.poll) := by
  induction is generalizing s g dl with
  | nil => rfl
  | cons i is ih =>
    obtain ⟨htracks, hout, hbase⟩ := iteration_spec h (hboot i (List.mem_cons_self ..))
      (hp.start i rfl) (hp.order i (List.mem_cons_self ..)) hsame.1
    have hrest := ih _ _ _ htracks (hp.tail hbase)
      (fun j hj => hboot j (List.mem_cons_of_mem i hj)) hsame.2
    rw [Machine.outs_cons, List.map_cons, Machine.outs_cons]
    exact congrArg₂ List.cons hout hrest

/-- **Blinking at 2 Hz.** While deadline and counter are in the same epoch at
every comparison, toggles come 2500 to 2500 + d ticks apart. -/
theorem blink_paced (d base : Nat) (is : List Input) (hp : Paced d base is)
    (hboot : ∀ i ∈ is, Booting i) (hsame : loop.Along SameEpoch (boot base, none) is) :
    BlinksAtRate d base is := by
  have heq := outs_eq_job is (boot base) none 0 ⟨rfl, rfl⟩ hp hboot hsame
  unfold BlinksAtRate toggles
  rw [heq]
  apply (Deadline.gaps hp.poll).imp
  rintro f g ⟨hlo, hhi⟩
  exact ⟨hlo, by omega⟩

/-- Booting iterations, `n` of them, whose readings fall `p` ticks apart. -/
def steadyBoot (p n : Nat) : List Input := (List.range n).map fun k => ⟨p * k, p * k, true, false⟩

/-- One wrap: the toggle at 57523 sets `nextBlink` to 23, and the next
iteration finds the counter at 60024. -/
theorem blink_paced_wrap : BlinksAtRate 2501 0 (steadyBoot 2501 26) :=
  blink_paced 2501 0 (steadyBoot 2501 26) ⟨by decide, by decide, by decide⟩ (by decide) (by decide)

/-- From boot, an iteration every 2600 ticks and one more a tick later: the
toggle at 59800 sets `nextBlink` to 2300 with the counter still at 59800. -/
theorem blink_doubles :
    Paced 2600 0 (steadyBoot 2600 24 ++ [⟨59801, 59801, true, false⟩]) ∧
      (∀ i ∈ steadyBoot 2600 24 ++ [⟨59801, 59801, true, false⟩], Booting i) ∧
      ¬ BlinksAtRate 2600 0 (steadyBoot 2600 24 ++ [⟨59801, 59801, true, false⟩]) :=
  ⟨⟨by decide, by decide, by decide⟩, by decide, by decide⟩

end DevBoards.Supervisor.Blink
