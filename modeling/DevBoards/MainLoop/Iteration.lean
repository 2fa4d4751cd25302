import Mathlib.Data.List.Range
import DevBoards.Core.Deadline
import DevBoards.Hw.LogTimer

/-!
# The main loop of the fpga-stm32-ifaces main MCU

`BSP_MainLoopIteration` (fpga-stm32-ifaces/firmware/main/main/mainloop.cpp)
runs three jobs off one 32-bit counter, `g_logTimer`: `PollPHYs`,
`OnAgingTick10x` and `OnAgingTick`. Each has a deadline in a static
`uint32_t`. Once the counter has reached `logTimerMax`, `g_log.UpdateOffset`
moves it back, and the loop moves `next1HzTick` and `next10HzTick` with it.

Time is the real time in ticks, as in `LogTimer`. The Ethernet frames, the
iperf streams and the console of an iteration touch none of this: they show as
the time that passes between two readings (`Times`).

* `reads_in_range`: on a paced run the counter never wraps by itself.
* `pollJob_spec`: a deadline read on the counter behaves as the real-time
  deadline `next + base` (`Deadline.job`).
* `iteration_phy`, `iteration_10Hz`, `iteration_1Hz`: what one iteration does
  to each of the three, the rebase included.
* `job_sim`: a job whose steps are those of a polled job runs when that does.
-/
namespace DevBoards.MainLoop

open Deadline (Poll)

/-- mirrors fpga-stm32-ifaces/firmware/main/main/mainloop.cpp:71 -/
def logTimerMax : UInt32 := 0xf0000000

/-- The timer and the static deadlines. -/
structure St extends LogTimer where
  next1HzTick : UInt32
  next10HzTick : UInt32
  nextPhyPoll : UInt32
deriving DecidableEq, Repr

/-- The real time of each place of an iteration that reads the counter. The
`set` readings happen only if the job runs. -/
structure Times where
  phyCheck : Nat
  phySet : Nat
  offset : Nat
  check10Hz : Nat
  set10Hz : Nat
  check1Hz : Nat
  set1Hz : Nat
deriving DecidableEq, Repr

/-- When each job was called, if it was. -/
structure Calls where
  pollPHYs : Option Nat
  onAgingTick10x : Option Nat
  onAgingTick : Option Nat
deriving DecidableEq, Repr

/-- mirrors fpga-stm32-ifaces/firmware/main/main/mainloop.cpp:68-70 -/
def boot (base : Nat) : St := ⟨⟨base⟩, 0, 0, 0⟩

/-- `if(GetCount() >= next) { call; next = GetCount() + period; }`: the new
deadline, and the time of the call. -/
def pollJob (s : St) (next period : UInt32) (check set : Nat) : UInt32 × Option Nat :=
  if s.getCount check ≥ next then (s.getCount set + period, some check) else (next, none)

/-- mirrors fpga-stm32-ifaces/firmware/main/main/mainloop.cpp:99-104 -/
def keepFromWrapping (s : St) (now : Nat) : St :=
  let r := s.updateOffset logTimerMax now
  let s := { s with toLogTimer := r.1 }
  if r.2 then
    { s with next1HzTick := s.next1HzTick - logTimerMax,
             next10HzTick := s.next10HzTick - logTimerMax }
  else s

/-- mirrors fpga-stm32-ifaces/firmware/main/main/mainloop.cpp:65-123 -/
def iteration (s : St) (t : Times) : St × Calls :=
  let phy := pollJob s s.nextPhyPoll 500 t.phyCheck t.phySet
  let s := keepFromWrapping { s with nextPhyPoll := phy.1 } t.offset
  let ten := pollJob s s.next10HzTick 1000 t.check10Hz t.set10Hz
  let s := { s with next10HzTick := ten.1 }
  let one := pollJob s s.next1HzTick 10000 t.check1Hz t.set1Hz
  ({ s with next1HzTick := one.1 }, ⟨phy.2, ten.2, one.2⟩)

def loop : Machine St Times Calls := ⟨iteration⟩

/-- The iteration's `UpdateOffset` returns true. -/
def Rebases (s : St) (t : Times) : Prop := logTimerMax ≤ s.getCount t.offset

instance (s : St) (t : Times) : Decidable (Rebases s t) := by unfold Rebases; exact inferInstance

/-! ## The pace of a run -/

/-- The readings of one iteration come in the order of the code and take at
most `d`. -/
structure Times.Ordered (d : Nat) (t : Times) : Prop where
  phy : t.phyCheck ≤ t.phySet
  offset : t.phySet ≤ t.offset
  check10Hz : t.offset ≤ t.check10Hz
  set10Hz : t.check10Hz ≤ t.set10Hz
  check1Hz : t.set10Hz ≤ t.check1Hz
  set1Hz : t.check1Hz ≤ t.set1Hz
  span : t.set1Hz ≤ t.phyCheck + d

/-- Each reading comes at most `d` after the same reading of the iteration
before, so any two successive readings are at most `d` apart. -/
structure Times.Next (d : Nat) (t t' : Times) : Prop where
  order : t.set1Hz ≤ t'.phyCheck
  phyCheck : t'.phyCheck ≤ t.phyCheck + d
  offset : t'.offset ≤ t.offset + d
  check10Hz : t'.check10Hz ≤ t.check10Hz + d
  check1Hz : t'.check1Hz ≤ t.check1Hz + d

/-- A run whose successive readings are at most `d` apart. -/
structure Paced (d : Nat) (ts : List Times) : Prop where
  ordered : ∀ t ∈ ts, t.Ordered d
  next : ts.IsChain (Times.Next d)

/-- The counter, before the run's first reading, is below `logTimerMax`. -/
def Starts (base : Nat) (ts : List Times) : Prop :=
  ∀ t ∈ ts.head?, base ≤ t.phyCheck ∧ t.phyCheck < base + logTimerMax.toNat

/-- In every window of `len` ticks between the first and the last reading of
the run, some call is made. -/
def CalledEvery (len : Nat) (ts : List Times) (calls : List (Option Nat)) : Prop :=
  ∀ t₀ ∈ ts.head?, ∀ t₁ ∈ ts.getLast?, ∀ w, t₀.phyCheck ≤ w → w + len ≤ t₁.set1Hz →
    ∃ c, some c ∈ calls ∧ w ≤ c ∧ c < w + len

/-- No reading of the iteration finds the counter wrapped. -/
structure InRange (d : Nat) (s : St) (t : Times) : Prop where
  ordered : t.Ordered d
  base : s.base ≤ t.phyCheck
  offset : t.offset < s.base + logTimerMax.toNat + d

theorem Paced.tail {d : Nat} {t : Times} {ts : List Times} (h : Paced d (t :: ts)) : Paced d ts :=
  ⟨fun t' ht => h.ordered t' (List.mem_cons_of_mem t ht), h.next.tail⟩

theorem toNat_logTimerMax : logTimerMax.toNat = 4026531840 := rfl

/-! ## Deadlines on the counter -/

theorem toNat_setNext (s : St) (period : UInt32) (now : Nat) (hb : s.base ≤ now)
    (h : now + period.toNat < s.base + 2 ^ 32) :
    (s.getCount now + period).toNat + s.base = now + period.toNat := by
  rw [UInt32.toNat_add, s.toNat_getCount now (by omega), Nat.mod_eq_of_lt (by omega)]; omega

/-- **A deadline on the counter** is the real-time deadline `next + base`. -/
theorem pollJob_spec (s : St) (next period : UInt32) (check set : Nat) (hb : s.base ≤ check)
    (hs : check ≤ set) (h : set + period.toNat < s.base + 2 ^ 32) :
    ((pollJob s next period check set).1.toNat + s.base, (pollJob s next period check set).2) =
      (Deadline.job period.toNat).step (next.toNat + s.base) ⟨check, set⟩ := by
  have hdue := s.due_iff next check hb (by omega)
  unfold pollJob
  by_cases hd : next ≤ s.getCount check
  · rw [if_pos hd, Deadline.job_due (hdue.mp hd), toNat_setNext s period set (by omega) h]
  · rw [if_neg hd, Deadline.job_wait (Nat.not_le.mp fun h' => hd (hdue.mpr h'))]

/-! ## The rebase -/

theorem rebases_iff {d : Nat} {s : St} {t : Times} (hd : d < 500) (h : InRange d s t) :
    Rebases s t ↔ s.base + logTimerMax.toNat ≤ t.offset := by
  have := h.base; have := h.ordered.phy; have := h.ordered.offset; have := h.offset
  have := toNat_logTimerMax
  unfold Rebases
  rw [s.due_iff logTimerMax t.offset (by omega) (by omega)]; omega

theorem keepFromWrapping_true {s : St} {t : Times} (h : Rebases s t) :
    keepFromWrapping s t.offset =
      { s with toLogTimer := ⟨s.base + logTimerMax.toNat⟩,
               next1HzTick := s.next1HzTick - logTimerMax,
               next10HzTick := s.next10HzTick - logTimerMax } := by
  unfold Rebases at h
  unfold keepFromWrapping LogTimer.updateOffset; rw [if_pos h]; rfl

theorem keepFromWrapping_false {s : St} {t : Times} (h : ¬ Rebases s t) :
    keepFromWrapping s t.offset = s := by
  unfold Rebases at h
  unfold keepFromWrapping LogTimer.updateOffset; rw [if_neg h]; rfl

/-- The rebase knows nothing of the PHY deadline. -/
theorem keepFromWrapping_phy (s : St) (now : Nat) (n : UInt32) :
    keepFromWrapping { s with nextPhyPoll := n } now =
      { keepFromWrapping s now with nextPhyPoll := n } := by
  unfold keepFromWrapping LogTimer.updateOffset
  by_cases h : logTimerMax ≤ s.getCount now
  · rw [if_pos h]; rfl
  · rw [if_neg h]; rfl

theorem keepFromWrapping_base (s : St) (t : Times) :
    (keepFromWrapping s t.offset).base =
      if Rebases s t then s.base + logTimerMax.toNat else s.base := by
  split
  · rw [keepFromWrapping_true ‹_›]
  · rw [keepFromWrapping_false ‹_›]

/-! ## One iteration -/

section
variable (s : St) (t : Times)

/-- Only the rebase moves the counter. -/
theorem iteration_base_eq : (iteration s t).1.base = (keepFromWrapping s t.offset).base := by
  simp only [iteration, keepFromWrapping_phy]

theorem iteration_base :
    (iteration s t).1.base = if Rebases s t then s.base + logTimerMax.toNat else s.base := by
  rw [iteration_base_eq, keepFromWrapping_base]

theorem iteration_phy :
    ((iteration s t).1.nextPhyPoll, (iteration s t).2.pollPHYs) =
      pollJob s s.nextPhyPoll 500 t.phyCheck t.phySet := by
  simp only [iteration, keepFromWrapping_phy]

theorem iteration_10Hz :
    ((iteration s t).1.next10HzTick, (iteration s t).2.onAgingTick10x) =
      pollJob (keepFromWrapping s t.offset) (keepFromWrapping s t.offset).next10HzTick 1000
        t.check10Hz t.set10Hz := by
  simp only [iteration, keepFromWrapping_phy]; rfl

theorem iteration_1Hz :
    ((iteration s t).1.next1HzTick, (iteration s t).2.onAgingTick) =
      pollJob (keepFromWrapping s t.offset) (keepFromWrapping s t.offset).next1HzTick 10000
        t.check1Hz t.set1Hz := by
  simp only [iteration, keepFromWrapping_phy]; rfl

end

/-! ## The readings of a run -/

theorem inRange_step {d : Nat} (hd : d < 500) {s : St} {t t' : Times} (h : InRange d s t)
    (hn : Times.Next d t t') (ho : t'.Ordered d) : InRange d (iteration s t).1 t' := by
  have hoff := h.offset
  have h1 := h.ordered.check10Hz; have h2 := h.ordered.set10Hz
  have h3 := h.ordered.check1Hz; have h4 := h.ordered.set1Hz
  have h5 := hn.order; have h6 := hn.offset
  have h7 := h.ordered.phy; have h8 := h.ordered.offset; have h9 := h.base
  have hM := toNat_logTimerMax
  have hr := rebases_iff hd h
  refine ⟨ho, ?_, ?_⟩
  · rw [iteration_base]; split
    · have := hr.mp ‹_›; omega
    · omega
  · rw [iteration_base]; split
    · omega
    · have : ¬ s.base + logTimerMax.toNat ≤ t.offset := fun hle => ‹¬ Rebases s t› (hr.mpr hle)
      omega

theorem inRange_start {d base : Nat} {t : Times} {ts : List Times} (hp : Paced d (t :: ts))
    (hs : Starts base (t :: ts)) : InRange d (boot base) t := by
  have ho := hp.ordered t (List.mem_cons_self ..)
  obtain ⟨h1, h2⟩ := hs t rfl
  refine ⟨ho, h1, ?_⟩
  have := ho.check10Hz; have := ho.set10Hz; have := ho.check1Hz; have := ho.set1Hz; have := ho.span
  simp only [boot]; omega

theorem inRange_along {d : Nat} (hd : d < 500) :
    ∀ (ts : List Times) (s : St) (t : Times), Paced d (t :: ts) → InRange d s t →
      loop.Along (InRange d) s (t :: ts)
  | [], _, _, _, h => ⟨h, trivial⟩
  | t' :: ts, s, t, hp, h => by
    have hn := (List.isChain_cons_cons.mp hp.next).1
    have ho := hp.ordered t' (by simp)
    exact ⟨h, inRange_along hd ts _ t' hp.tail (inRange_step hd h hn ho)⟩

/-- **No reading finds the counter wrapped.** -/
theorem reads_in_range {d base : Nat} (hd : d < 500) {ts : List Times} (hp : Paced d ts)
    (hs : Starts base ts) : loop.Along (InRange d) (boot base) ts := by
  cases ts with
  | nil => trivial
  | cons t ts => exact inRange_along hd ts _ t hp (inRange_start hp hs)

/-! ## Jobs of the loop as polled jobs -/

/-- Where an iteration polls one of its jobs. -/
structure Place (d : Nat) (f : Times → Poll) : Prop where
  inside : ∀ t : Times, t.Ordered d →
    t.phyCheck ≤ (f t).check ∧ (f t).check ≤ (f t).set ∧ (f t).set ≤ t.set1Hz
  next : ∀ t t' : Times, Times.Next d t t' → (f t').check ≤ (f t).check + d

def Times.poll20Hz (t : Times) : Poll := ⟨t.phyCheck, t.phySet⟩

def Times.poll10Hz (t : Times) : Poll := ⟨t.check10Hz, t.set10Hz⟩

def Times.poll1Hz (t : Times) : Poll := ⟨t.check1Hz, t.set1Hz⟩

theorem place_20Hz (d : Nat) : Place d Times.poll20Hz where
  inside t h := ⟨Nat.le_refl _, h.phy, by
    have := h.offset; have := h.check10Hz; have := h.set10Hz; have := h.check1Hz
    have := h.set1Hz; simp only [Times.poll20Hz]; omega⟩
  next _ _ h := h.phyCheck

theorem place_10Hz (d : Nat) : Place d Times.poll10Hz where
  inside t h := ⟨by
    have := h.phy; have := h.offset; have := h.check10Hz; simp only [Times.poll10Hz]; omega,
    h.set10Hz, by have := h.check1Hz; have := h.set1Hz; simp only [Times.poll10Hz]; omega⟩
  next _ _ h := h.check10Hz

theorem place_1Hz (d : Nat) : Place d Times.poll1Hz where
  inside t h := ⟨by
    have := h.phy; have := h.offset; have := h.check10Hz; have := h.set10Hz; have := h.check1Hz
    simp only [Times.poll1Hz]; omega, h.set1Hz, Nat.le_refl _⟩
  next _ _ h := h.check1Hz

theorem Place.paced {d : Nat} {f : Times → Poll} (hf : Place d f) {ts : List Times}
    (hp : Paced d ts) : Deadline.Paced d d (ts.map f) := by
  refine ⟨?_, ?_⟩
  · intro p hpm
    obtain ⟨t, ht, rfl⟩ := List.mem_map.mp hpm
    have ho := hp.ordered t ht
    obtain ⟨h1, h2, h3⟩ := hf.inside t ho
    have := ho.span
    exact ⟨h2, by omega⟩
  · rw [List.isChain_map]
    apply hp.next.imp_of_mem_imp
    intro t t' ht ht' hn
    obtain ⟨-, h2, h3⟩ := hf.inside t (hp.ordered t ht)
    obtain ⟨h1', -, -⟩ := hf.inside t' (hp.ordered t' ht')
    have := hn.order
    exact ⟨by omega, hf.next t t' hn⟩

/-- Where every iteration does to a job's deadline and calls what the polled
job does, so does the run. -/
theorem job_sim (period : Nat) (f : Times → Poll) (next : St → UInt32) (call : Calls → Option Nat)
    {Q : St → Times → Prop}
    (h : ∀ s t, Q s t →
      ((next (iteration s t).1).toNat + (iteration s t).1.base, call (iteration s t).2) =
        (Deadline.job period).step ((next s).toNat + s.base) (f t))
    (ts : List Times) (s : St) {dl : Nat} (hdl : dl = (next s).toNat + s.base)
    (hQ : loop.Along Q s ts) :
    (Deadline.job period).final dl (ts.map f) =
        (next (loop.final s ts)).toNat + (loop.final s ts).base ∧
      (loop.outs s ts).map call = (Deadline.job period).outs dl (ts.map f) := by
  refine loop.simulation (Deadline.job period) (fun s dl => dl = (next s).toNat + s.base) Q f call
    ?_ ts s dl hdl hQ
  rintro s dl t rfl hq
  obtain ⟨hnext, hcall⟩ := Prod.ext_iff.mp (h s t hq)
  exact ⟨hnext.symm, hcall⟩

/-- Calls that are those of a polled job, due at the start, leave no window
of `period + 2 * d` ticks empty. -/
theorem calledEvery_of_job {d period base : Nat} (hpos : 0 < period) {ts : List Times}
    (hp : Paced d ts) (hs : Starts base ts) {f : Times → Poll} (hf : Place d f)
    {calls : List (Option Nat)} (h : calls = (Deadline.job period).outs base (ts.map f)) :
    CalledEvery (period + 2 * d) ts calls := by
  intro t₀ ht₀ t₁ ht₁ w hw hw'
  have hpaced := hf.paced hp
  cases ts with
  | nil => cases ht₀
  | cons t ts =>
    cases ht₀
    have hlast := List.mem_of_mem_getLast? ht₁
    have ho := hp.ordered t₀ (List.mem_cons_self ..)
    obtain ⟨h1, h2, h3⟩ := hf.inside t₀ ho
    obtain ⟨h1', -, -⟩ := hf.inside t₁ (hp.ordered t₁ hlast)
    have hspan := ho.span
    have hspan' := (hp.ordered t₁ hlast).span
    rw [List.map_cons] at hpaced h
    rw [h, show period + 2 * d = period + d + d by omega]
    exact Deadline.window t₀.phyCheck t₁.set1Hz hpos hpaced (hs t₀ rfl).1
      (by omega) ⟨f t₁, List.mem_map_of_mem (f := f) hlast, by omega⟩ w hw (by omega)

/-! ## Steady runs -/

/-- An iteration whose readings all fall on one tick. -/
def Times.at (now : Nat) : Times := ⟨now, now, now, now, now, now, now⟩

/-- `n` iterations, one every `p` ticks from tick `start` on. -/
def steady (start p n : Nat) : List Times := (List.range n).map fun i => Times.at (start + p * i)

theorem steady_add (start p n m : Nat) :
    steady start p (n + m) = steady start p n ++ steady (start + p * n) p m := by
  simp only [steady, List.range_add, List.map_append, List.map_map]
  congr 1
  apply List.map_congr_left
  intro i _
  simp only [Function.comp, Nat.mul_add, Nat.add_assoc]

theorem mem_steady {start p n : Nat} {t : Times} :
    t ∈ steady start p n ↔ ∃ i < n, t = Times.at (start + p * i) := by
  simp only [steady, List.mem_map, List.mem_range]
  exact ⟨fun ⟨i, hi, h⟩ => ⟨i, hi, h.symm⟩, fun ⟨i, hi, h⟩ => ⟨i, hi, h.symm⟩⟩

theorem paced_steady (start p n : Nat) : Paced p (steady start p n) := by
  refine ⟨?_, ?_⟩
  · intro t ht
    obtain ⟨i, -, rfl⟩ := mem_steady.mp ht
    constructor <;> simp [Times.at]
  · unfold steady
    rw [List.isChain_map, List.isChain_range]
    intro m _
    constructor <;> simp only [Times.at, Nat.mul_succ] <;> omega

theorem head_steady (start p n : Nat) : (steady start p (n + 1)).head? = some (Times.at start) := by
  rw [steady, List.range_succ_eq_map]; rfl

theorem last_steady (start p n : Nat) :
    (steady start p (n + 1)).getLast? = some (Times.at (start + p * n)) := by
  rw [steady, List.range_succ, List.map_append]; simp

theorem starts_steady {start p n base : Nat} (h : base ≤ start)
    (h' : start < base + logTimerMax.toNat) : Starts base (steady start p n) := by
  intro t ht
  cases n with
  | zero => cases ht
  | succ n =>
    rw [head_steady] at ht
    cases ht
    exact ⟨h, h'⟩

section
variable {d b : Nat} (hd : d < 500) {ts : List Times} {s : St} (hs : s.base = b)
  (hr : loop.Along (InRange d) s ts) (hlow : ∀ t ∈ ts, t.offset < b + logTimerMax.toNat)

include hd hs hr hlow

/-- Readings below `logTimerMax` rebase nothing. -/
theorem no_rebase : loop.Along (fun s t => ¬ Rebases s t) s ts := by
  induction ts generalizing s with
  | nil => trivial
  | cons t ts ih =>
    have hno : ¬ Rebases s t := fun h => by
      have := (rebases_iff hd hr.1).mp h
      have := hlow t (List.mem_cons_self ..)
      omega
    refine ⟨hno, ih ?_ hr.2 fun t' ht' => hlow t' (List.mem_cons_of_mem t ht')⟩
    show (iteration s t).1.base = b
    rw [iteration_base, if_neg hno, hs]

theorem base_kept : (loop.final s ts).base = b := by
  refine loop.final_inv (fun s => s.base = b) ?_ ts s hs (no_rebase hd hs hr hlow)
  intro s t hb hno
  show (iteration s t).1.base = b
  rw [iteration_base, if_neg hno, hb]

end

end DevBoards.MainLoop
