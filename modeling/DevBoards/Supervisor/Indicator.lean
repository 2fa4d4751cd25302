import Mathlib.Data.List.DropRight
import DevBoards.Supervisor.Blink

/-!
# What the status LEDs say

On both boards the OK LED is dark while the power is down, blinks while the
resets run and is lit once they are done, and the fault LED is lit for good
after a fault. The code that sees to it differs: fpga-stm32-ifaces has
`UpdateLEDs`, with its own deadline; kup-lulz has a timer task, which blinks if
a flag says so and sets that flag for the next time.

`indicator` is the panel as it is meant to be. `PowerResetSupervisor` and
`TimerTask` are outside the repository: what they answer, and when, is input.

* `ifaces_indicates`, `kupLulz_indicates`: what each shows, after any run.
-/
namespace DevBoards.Supervisor.Indicator

inductive Phase | off | booting | running
deriving DecidableEq, Repr

/-- `IsPowerOn` and `IsResetsDone`. -/
def phase (isPowerOn isResetsDone : Bool) : Phase :=
  if isPowerOn then if isResetsDone then .running else .booting else .off

/-! ## The panel -/

structure Panel where
  ok : Bool
  fault : Bool
deriving DecidableEq, Repr

def dark : Panel := ⟨false, false⟩

/-- One iteration: the phase, whether it is time to blink, and whether the
supervisor finds a fault at the end. -/
structure Sample where
  phase : Phase
  blink : Bool
  fault : Bool
deriving DecidableEq, Repr

def indicator : Machine Panel Sample Unit where
  step s i :=
    if s.fault then (s, ())
    else if i.fault then (⟨false, true⟩, ())
    else match i.phase with
      | .off => (⟨false, false⟩, ())
      | .booting => (⟨s.ok != i.blink, false⟩, ())
      | .running => (⟨true, false⟩, ())

def Sample.booting (i : Sample) : Bool := i.phase = .booting

/-- What the OK LED last showed without blinking. -/
def settled (is : List Sample) : Bool :=
  (is.rdropWhile Sample.booting).getLast?.any (·.phase = .running)

/-- How often it has blinked since. -/
def blinks (is : List Sample) : Nat := (is.rtakeWhile Sample.booting).countP (·.blink)

/-- What a run shows. -/
def shown (is : List Sample) : Panel :=
  if is.any (·.fault) then ⟨false, true⟩ else ⟨settled is != decide (blinks is % 2 = 1), false⟩

theorem blinks_succ (b blink : Bool) (n : Nat) :
    (b != decide ((n + if blink then 1 else 0) % 2 = 1)) = ((b != decide (n % 2 = 1)) != blink) := by
  have hmod : (n + 1) % 2 = 1 ↔ ¬ n % 2 = 1 := by omega
  cases blink with
  | false => simp
  | true => by_cases hn : n % 2 = 1 <;> cases b <;> simp [hmod, hn]

variable {is : List Sample} {i : Sample}

theorem settled_booting (h : i.booting = true) : settled (is ++ [i]) = settled is := by
  unfold settled
  rw [List.rdropWhile_concat_pos _ _ _ h]

theorem blinks_booting (h : i.booting = true) :
    blinks (is ++ [i]) = blinks is + if i.blink then 1 else 0 := by
  unfold blinks
  rw [List.rtakeWhile_concat_pos _ _ _ h, List.countP_append, List.countP_singleton]

theorem settled_steady (h : i.booting = false) :
    settled (is ++ [i]) = decide (i.phase = .running) := by
  unfold settled
  rw [List.rdropWhile_concat_neg _ _ _ (Bool.eq_false_iff.mp h), List.getLast?_concat]
  rfl

theorem blinks_steady (h : i.booting = false) : blinks (is ++ [i]) = 0 := by
  unfold blinks
  rw [List.rtakeWhile_concat_neg _ _ _ (Bool.eq_false_iff.mp h)]
  rfl

/-- **Run rule of the panel.** -/
theorem indicator_shown (is : List Sample) : indicator.final dark is = shown is := by
  induction is using List.reverseRecOn with
  | nil => rfl
  | append_singleton is i ih =>
    rw [Machine.final_append, ih]
    show (indicator.step (shown is) i).1 = _
    unfold shown
    rw [List.any_append]
    cases hfault : is.any (·.fault) with
    | true => rfl
    | false =>
      cases hi : i.fault with
      | true => simp [indicator, hi]
      | false =>
        cases hphase : i.phase with
        | off =>
          have hsteady : i.booting = false := by rw [Sample.booting, hphase]; rfl
          simp [indicator, hi, hphase, settled_steady hsteady, blinks_steady hsteady]
        | booting =>
          have hbooting : i.booting = true := by rw [Sample.booting, hphase]; rfl
          simp [indicator, hi, hphase, settled_booting hbooting, blinks_booting hbooting, blinks_succ]
        | running =>
          have hsteady : i.booting = false := by rw [Sample.booting, hphase]; rfl
          simp [indicator, hi, hphase, settled_steady hsteady, blinks_steady hsteady]

/-! ## fpga-stm32-ifaces -/

/-- The main loop's LEDs. Only `OnFault` lights the fault LED, and it never returns. -/
structure Ifaces extends Blink.St where
  faultLED : Bool
  hung : Bool
  lit : faultLED = hung

namespace Ifaces

/-- mirrors fpga-stm32-ifaces/firmware/super/bsp/hwinit.cpp:124-127 -/
def boot (base : Nat) : Ifaces := ⟨Blink.boot base, false, false, rfl⟩

/-- mirrors fpga-stm32-ifaces/firmware/super/main/supervisor.h:48-58 -/
def onFault (s : Ifaces) : Ifaces :=
  ⟨{ s.toSt with sysokLED := false, pgoodLED := false }, true, true, rfl⟩

def panel (s : Ifaces) : Panel := ⟨s.sysokLED, s.faultLED⟩

/-- One iteration, in which the supervisor may find a fault.
mirrors fpga-stm32-ifaces/firmware/super/main/mainloop.cpp:145-158 -/
def loop : Machine Ifaces (Blink.Input × Bool) Sample where
  step s i :=
    let phase := phase i.1.isPowerOn i.1.isResetsDone
    if s.hung then (s, ⟨phase, false, i.2⟩)
    else
      let (leds, toggled) := Blink.iteration s.toSt i.1
      let s := { s with toSt := leds }
      (if i.2 then s.onFault else s, ⟨phase, toggled.isSome, i.2⟩)

/-- The three branches of `UpdateLEDs`. -/
theorem iteration_leds (s : Blink.St) (i : Blink.Input) :
    (Blink.iteration s i).1.pgoodLED = i.isPowerOn ∧
      (Blink.iteration s i).1.sysokLED = match phase i.isPowerOn i.isResetsDone with
        | .off => false
        | .booting => s.sysokLED != (Blink.iteration s i).2.isSome
        | .running => true := by
  have hok : (Blink.afterOffset s i).sysokLED = s.sysokLED := rfl
  unfold Blink.iteration
  rw [← hok]
  generalize Blink.afterOffset s i = s
  cases hon : i.isPowerOn with
  | false => simp [Blink.updateLEDs, phase, hon]
  | true =>
    cases hdone : i.isResetsDone with
    | true => simp [Blink.updateLEDs, phase, hon, hdone]
    | false =>
      by_cases hdue : s.nextBlink ≤ s.getCount i.now
      · simp [Blink.updateLEDs_due ⟨hon, hdone⟩ hdue, phase]
      · simp [Blink.updateLEDs_wait ⟨hon, hdone⟩ hdue, phase]

/-- An iteration before any fault. -/
theorem loop_looping (leds : Blink.St) (i : Blink.Input) (fault : Bool) :
    let s : Ifaces := ⟨(Blink.iteration leds i).1, false, false, rfl⟩
    loop.step ⟨leds, false, false, rfl⟩ (i, fault) =
      (if fault then s.onFault else s,
        ⟨phase i.isPowerOn i.isResetsDone, (Blink.iteration leds i).2.isSome, fault⟩) := rfl

theorem loop_panel (s : Ifaces) (i : Blink.Input × Bool) :
    (loop.step s i).1.panel = (indicator.step s.panel (loop.step s i).2).1 := by
  obtain ⟨leds, faultLED, hung, rfl⟩ := s
  obtain ⟨i, fault⟩ := i
  cases faultLED with
  | true => rfl
  | false =>
    rw [loop_looping]
    cases fault with
    | true => rfl
    | false =>
      have hpanel : Ifaces.panel ⟨(Blink.iteration leds i).1, false, false, rfl⟩ =
        ⟨(Blink.iteration leds i).1.sysokLED, false⟩ := rfl
      show Ifaces.panel ⟨(Blink.iteration leds i).1, false, false, rfl⟩ = _
      rw [hpanel, (iteration_leds leds i).2]
      cases phase i.isPowerOn i.isResetsDone <;> rfl

/-- The power LED follows `IsPowerOn`, and goes dark with a fault. -/
theorem loop_pgood (s : Ifaces) (i : Blink.Input × Bool) :
    (loop.step s i).1.pgoodLED = if s.hung then s.pgoodLED else !i.2 && i.1.isPowerOn := by
  obtain ⟨leds, faultLED, hung, rfl⟩ := s
  obtain ⟨i, fault⟩ := i
  cases faultLED with
  | true => rfl
  | false =>
    rw [loop_looping]
    cases fault with
    | true => rfl
    | false => exact (iteration_leds leds i).1

theorem loop_sample (s : Ifaces) (i : Blink.Input × Bool) :
    (loop.step s i).2.fault = i.2 ∧
      (loop.step s i).2.phase = phase i.1.isPowerOn i.1.isResetsDone := by
  obtain ⟨leds, faultLED, hung, rfl⟩ := s
  cases faultLED <;> exact ⟨rfl, rfl⟩

theorem phase_off (isPowerOn isResetsDone : Bool) :
    decide (phase isPowerOn isResetsDone ≠ .off) = isPowerOn := by
  cases isPowerOn <;> cases isResetsDone <;> rfl

/-- **What the LEDs of fpga-stm32-ifaces say**, after any run of the main loop. -/
theorem ifaces_indicates (base : Nat) (is : List (Blink.Input × Bool)) :
    let s := loop.final (boot base) is
    let samples := loop.outs (boot base) is
    s.panel = shown samples ∧
      s.pgoodLED = (!samples.any (·.fault) && samples.getLast?.any (·.phase ≠ .off)) := by
  have hpanel (is : List (Blink.Input × Bool)) :
      (loop.final (boot base) is).panel = shown (loop.outs (boot base) is) := by
    rw [← indicator_shown]
    exact loop.final_cascade indicator panel loop_panel is (boot base)
  refine ⟨hpanel is, ?_⟩
  induction is using List.reverseRecOn with
  | nil => rfl
  | append_singleton is i ih =>
    have hhung : (loop.final (boot base) is).hung = (loop.outs (boot base) is).any (·.fault) := by
      rw [← (loop.final (boot base) is).lit]
      have hfault := congrArg Panel.fault (hpanel is)
      refine hfault.trans ?_
      unfold shown
      cases (loop.outs (boot base) is).any (·.fault) <;> rfl
    obtain ⟨hfault, hphase⟩ := loop_sample (loop.final (boot base) is) i
    have houts : loop.outs (loop.final (boot base) is) [i] =
      [(loop.step (loop.final (boot base) is) i).2] := rfl
    have hdark : (loop.outs (boot base) is).any (·.fault) = true →
        (loop.final (boot base) is).pgoodLED = false := by
      intro hany
      rw [ih, hany]
      rfl
    rw [Machine.final_append, Machine.outs_append, houts, List.any_append, List.getLast?_concat]
    show (loop.step _ i).1.pgoodLED = _
    rw [loop_pgood, hhung]
    cases hany : (loop.outs (boot base) is).any (·.fault) with
    | true => exact hdark hany
    | false =>
      show (!i.2 && i.1.isPowerOn) = _
      simp only [List.any_cons, List.any_nil, hfault, Option.any_some, hphase, phase_off,
        Bool.or_false, Bool.false_or]

end Ifaces

/-! ## kup-lulz -/

/-- `LEDTask`, and the supervisor's fault LED. -/
structure KupLulz where
  sysokLED : Bool
  blinking : Bool
  faultLED : Bool
  hung : Bool
  lit : faultLED = hung

/-- One pass over `g_tasks`: whether the timer of `LEDTask` runs out, what the
supervisor answers, and whether it finds a fault when its turn comes. -/
structure Pass where
  timer : Bool
  isPowerOn : Bool
  isResetsDone : Bool
  fault : Bool

namespace KupLulz

/-- mirrors kup-lulz/firmware/super/bsp/hwinit.cpp:126-128 and
kup-lulz/firmware/super/main/LEDTask.h:38-42 -/
def boot : KupLulz := ⟨false, false, false, false, rfl⟩

/-- mirrors kup-lulz/firmware/super/main/LEDTask.h:77-82 -/
def onTimer (s : KupLulz) : KupLulz := if s.blinking then { s with sysokLED := !s.sysokLED } else s

/-- mirrors kup-lulz/firmware/super/main/LEDTask.h:44-71 -/
def iteration (s : KupLulz) (i : Pass) : KupLulz :=
  let s := if i.timer then s.onTimer else s
  if i.isPowerOn then
    if i.isResetsDone then { s with sysokLED := true, blinking := false }
    else { s with blinking := true }
  else { s with sysokLED := false, blinking := false }

/-- mirrors kup-lulz/firmware/super/main/supervisor.h:49-58 -/
def onFault (s : KupLulz) : KupLulz := ⟨false, s.blinking, true, true, rfl⟩

def panel (s : KupLulz) : Panel := ⟨s.sysokLED, s.faultLED⟩

def loop : Machine KupLulz Pass Sample where
  step s i :=
    let phase := phase i.isPowerOn i.isResetsDone
    if s.hung then (s, ⟨phase, false, i.fault⟩)
    else
      let t := s.iteration i
      (if i.fault then t.onFault else t, ⟨phase, i.timer && s.blinking, i.fault⟩)

theorem loop_panel (s : KupLulz) (i : Pass) :
    (loop.step s i).1.panel = (indicator.step s.panel (loop.step s i).2).1 := by
  obtain ⟨ok, blinking, faultLED, hung, rfl⟩ := s
  obtain ⟨timer, isPowerOn, isResetsDone, fault⟩ := i
  cases faultLED <;> cases fault <;> cases isPowerOn <;> cases isResetsDone <;> cases timer <;>
    cases blinking <;> cases ok <;> rfl

/-- The flag is the phase of the last time round. -/
theorem loop_blinking (s : KupLulz) (i : Pass) :
    (loop.step s i).1.blinking = if s.hung then s.blinking else (loop.step s i).2.booting := by
  obtain ⟨ok, blinking, faultLED, hung, rfl⟩ := s
  obtain ⟨timer, isPowerOn, isResetsDone, fault⟩ := i
  cases faultLED <;> cases fault <;> cases isPowerOn <;> cases isResetsDone <;> cases timer <;>
    cases blinking <;> rfl

/-- A blink is a run-out of the timer right after an iteration that was booting. -/
def Follows (p : Sample) (q : Sample) : Prop := q.blink = true → p.booting = true

theorem loop_hung (s : KupLulz) (i : Pass) : (loop.step s i).1.hung = (s.hung || i.fault) := by
  obtain ⟨ok, blinking, faultLED, hung, rfl⟩ := s
  obtain ⟨timer, isPowerOn, isResetsDone, fault⟩ := i
  cases faultLED <;> cases fault <;> cases isPowerOn <;> cases isResetsDone <;> cases timer <;>
    cases blinking <;> rfl

theorem loop_blink (s : KupLulz) (i : Pass) :
    (loop.step s i).2.blink = (!s.hung && (i.timer && s.blinking)) := by
  obtain ⟨ok, blinking, faultLED, hung, rfl⟩ := s
  cases faultLED <;> rfl

theorem loop_follows (is : List Pass) (s : KupLulz) (p : Sample)
    (h : s.hung = false → s.blinking = true → p.booting = true) :
    (p :: loop.outs s is).IsChain Follows := by
  induction is generalizing s p with
  | nil => exact .singleton p
  | cons i is ih =>
    rw [Machine.outs_cons]
    refine List.isChain_cons_cons.mpr ⟨?_, ih _ _ ?_⟩
    · intro hblink
      rw [loop_blink, Bool.and_eq_true, Bool.and_eq_true, Bool.not_eq_true'] at hblink
      exact h hblink.1 hblink.2.2
    · intro hhung hblinking
      rw [loop_hung, Bool.or_eq_false_iff] at hhung
      rwa [loop_blinking, hhung.1] at hblinking

/-- **What the LEDs of kup-lulz say**, after any run of its tasks; and it blinks
only where the iteration before was booting as well. -/
theorem kupLulz_indicates (is : List Pass) :
    let samples := loop.outs boot is
    (loop.final boot is).panel = shown samples ∧
      (⟨.off, false, false⟩ :: samples).IsChain Follows := by
  intro samples
  refine ⟨?_, loop_follows is boot _ fun _ h => Bool.noConfusion h⟩
  rw [← indicator_shown]
  exact loop.final_cascade indicator panel loop_panel is boot

end KupLulz

end DevBoards.Supervisor.Indicator
