import DevBoards.Core.System
import DevBoards.Hw.Gpio

/-!
# The reset sequence of the supervisors

`g_resetSequence` releases the FPGA's PROG, then its INIT, waits for DONE and
then releases the main MCU. The vector is the same in fpga-stm32-ifaces
(`ifaces`) and kup-lulz (`kupLulz`); the pins are not, and in
fpga-stm32-ifaces the three reset lines are one physical pin, PA3.

`PowerResetSupervisor` and the descriptor classes are outside the repository.
What is taken of them: every descriptor starts asserted, with its pin low;
they are released in the order of the vector, each by letting its pin go high;
the sequence moves past a descriptor with a DONE input only once that reads
high. A descriptor may be asserted again at any time, and the sequence then
resumes from it. DONE may read anything at any time.

* `safe_iff_distinct`: every run is safe exactly when the three lines are
  three pins.
* `ifaces_safe_iff`: on fpga-stm32-ifaces a run is safe only as long as it
  releases nothing.
-/
namespace DevBoards.Supervisor.ResetSequence

inductive Descriptor
  /-- `ActiveLowResetDescriptor` -/
  | activeLow (pin : Pin)
  /-- `ActiveLowResetDescriptorWithActiveHighDone` -/
  | activeLowWithActiveHighDone (pin done : Pin)
deriving DecidableEq, Repr

def Descriptor.pin : Descriptor → Pin
  | .activeLow pin => pin
  | .activeLowWithActiveHighDone pin _ => pin

def Descriptor.waits : Descriptor → Bool
  | .activeLow _ => false
  | .activeLowWithActiveHighDone .. => true

/-- The pins of `g_fpgaResetN`, `g_fpgaInitN`, `g_fpgaDone` and `g_mcuResetN`. -/
structure Board where
  fpgaResetN : Pin
  fpgaInitN : Pin
  fpgaDone : Pin
  mcuResetN : Pin

/-- mirrors fpga-stm32-ifaces/firmware/super/main/mainloop.cpp:91-102 -/
def ifaces : Board := ⟨⟨.gpioA, 3⟩, ⟨.gpioA, 3⟩, ⟨.gpioB, 2⟩, ⟨.gpioA, 3⟩⟩

/-- mirrors kup-lulz/firmware/super/main/Init.cpp:103-114 -/
def kupLulz : Board := ⟨⟨.gpioB, 12⟩, ⟨.gpioB, 2⟩, ⟨.gpioB, 10⟩, ⟨.gpioB, 9⟩⟩

/-- mirrors fpga-stm32-ifaces/firmware/super/main/mainloop.cpp:92-113 and
kup-lulz/firmware/super/main/Init.cpp:104-125 -/
def resetSequence (b : Board) : List Descriptor :=
  [.activeLow b.fpgaResetN, .activeLowWithActiveHighDone b.fpgaInitN b.fpgaDone,
    .activeLow b.mcuResetN]

structure St where
  pins : Levels
  /-- The descriptors before this index are released. -/
  released : Nat
  /-- The sequence has moved past the last descriptor released. -/
  passed : Bool
  /-- DONE has been read high. -/
  doneSeen : Bool

def init : St := ⟨fun _ => false, 0, true, false⟩

/-- Assert one descriptor, release the next one, or read DONE. -/
inductive Label
  | assert (i : Nat)
  | release
  | readDone (level : Bool)
deriving DecidableEq, Repr

def step (b : Board) (s : St) : Label → Option St
  | .assert i => (resetSequence b)[i]?.map fun d =>
      let s := { s with pins := s.pins.drive d.pin false }
      if i < s.released then { s with released := i, passed := true } else s
  | .release =>
      if s.passed then (resetSequence b)[s.released]?.map fun d =>
        { s with pins := s.pins.drive d.pin true, released := s.released + 1, passed := !d.waits }
      else none
  | .readDone level =>
      some { s with passed := s.passed || level, doneSeen := s.doneSeen || level }

def sequence (b : Board) : System St Label := ⟨step b⟩

/-- The descriptor a step asserts or releases. -/
def Label.target (s : St) : Label → Option Nat
  | .assert i => some i
  | .release => some s.released
  | .readDone _ => none

/-- Until DONE has been read high, the main MCU is in reset. -/
def McuHeld (b : Board) (s : St) : Prop := s.doneSeen = false → s.pins b.mcuResetN = false

/-- The step leaves the pins of the other descriptors at their levels. -/
def OthersKept (b : Board) (s : St) (l : Label) (s' : St) : Prop :=
  ∀ i ∈ l.target s, ∀ j d, j ≠ i → (resetSequence b)[j]? = some d → s'.pins d.pin = s.pins d.pin

/-- The main MCU is held at every step before DONE, and no step touches
another descriptor's pin. -/
def Safe (b : Board) (ls : List Label) : Prop :=
  McuHeld b init ∧ (sequence b).Along (fun s l s' => McuHeld b s' ∧ OthersKept b s l s') init ls

/-! ## Three lines on three pins -/

/-- The three reset lines are three pins. -/
structure Board.Distinct (b : Board) : Prop where
  resetInit : b.fpgaResetN ≠ b.fpgaInitN
  resetMcu : b.fpgaResetN ≠ b.mcuResetN
  initMcu : b.fpgaInitN ≠ b.mcuResetN

/-- What the sequence has passed and released says whether DONE was seen. -/
structure Inv (b : Board) (s : St) : Prop where
  mcu : McuHeld b s
  waiting : 2 ≤ s.released → s.passed = true → s.doneSeen = true
  beyond : 3 ≤ s.released → s.doneSeen = true

variable {b : Board} {s s' : St} {i j : Nat} {d d' : Descriptor}

theorem step_assert (h : step b s (.assert i) = some s') :
    ∃ d, (resetSequence b)[i]? = some d ∧ s'.pins = s.pins.drive d.pin false ∧
      s'.doneSeen = s.doneSeen ∧
      (i < s.released ∧ s'.released = i ∨ s'.released = s.released ∧ s'.passed = s.passed) := by
  obtain ⟨d, hd, rfl⟩ := Option.map_eq_some_iff.mp h
  refine ⟨d, hd, ?_⟩
  by_cases hi : i < s.released
  · simp only [if_pos hi]
    exact ⟨trivial, trivial, .inl ⟨hi, trivial⟩⟩
  · simp only [if_neg hi]
    exact ⟨trivial, trivial, .inr ⟨trivial, trivial⟩⟩

theorem step_release (h : step b s .release = some s') :
    s.passed = true ∧ ∃ d, (resetSequence b)[s.released]? = some d ∧
      s' = { s with pins := s.pins.drive d.pin true, released := s.released + 1,
                    passed := !d.waits } := by
  simp only [step] at h
  split at h
  · obtain ⟨d, hd, rfl⟩ := Option.map_eq_some_iff.mp h
    exact ⟨‹_›, d, hd, rfl⟩
  · cases h

theorem step_readDone {level : Bool} (h : step b s (.readDone level) = some s') :
    s' = { s with passed := s.passed || level, doneSeen := s.doneSeen || level } :=
  (Option.some.inj h).symm

/-- The vector has three entries. -/
theorem resetSequence_cases (h : (resetSequence b)[i]? = some d) :
    i = 0 ∧ d = .activeLow b.fpgaResetN ∨
      i = 1 ∧ d = .activeLowWithActiveHighDone b.fpgaInitN b.fpgaDone ∨
      i = 2 ∧ d = .activeLow b.mcuResetN := by
  rcases i with _ | _ | _ | i <;> simp [resetSequence] at h <;> simp [h]

theorem Board.Distinct.pin_ne (hb : b.Distinct) (hd : (resetSequence b)[i]? = some d)
    (hd' : (resetSequence b)[j]? = some d') (hij : j ≠ i) : d'.pin ≠ d.pin := by
  obtain ⟨h1, h2, h3⟩ := hb
  rcases resetSequence_cases hd with ⟨rfl, rfl⟩ | ⟨rfl, rfl⟩ | ⟨rfl, rfl⟩ <;>
    rcases resetSequence_cases hd' with ⟨rfl, rfl⟩ | ⟨rfl, rfl⟩ | ⟨rfl, rfl⟩ <;>
    simp [Descriptor.pin, h1, h2, h3, h1.symm, h2.symm, h3.symm] at hij ⊢

theorem othersKept_of_distinct (hb : b.Distinct) {l : Label} (h : step b s l = some s') :
    OthersKept b s l s' := by
  intro i hi j d' hij hd'
  cases l with
  | assert k =>
    cases hi
    obtain ⟨d, hd, hpins, -⟩ := step_assert h
    rw [hpins, Levels.drive_ne _ _ (hb.pin_ne hd hd' hij)]
  | release =>
    cases hi
    obtain ⟨-, d, hd, rfl⟩ := step_release h
    exact Levels.drive_ne _ _ (hb.pin_ne hd hd' hij)
  | readDone level => cases hi

theorem inv_step (hb : b.Distinct) {l : Label} (hinv : Inv b s) (h : step b s l = some s') :
    Inv b s' := by
  obtain ⟨hmcu, hwait, hbeyond⟩ := hinv
  cases l with
  | assert i =>
    obtain ⟨d, hd, hpins, hdone, hrel⟩ := step_assert h
    refine ⟨?_, ?_, ?_⟩
    · intro hn
      rw [hpins, Levels.drive_apply, hmcu (hdone ▸ hn), ite_self]
    · intro h2 hp
      rw [hdone]
      -- falling back to descriptor 2 or beyond is possible only once past it
      rcases hrel with ⟨hlt, hr⟩ | ⟨hr, hp'⟩
      · exact hbeyond (by omega)
      · exact hwait (by omega) (hp' ▸ hp)
    · intro h3
      rw [hdone]
      exact hbeyond (by rcases hrel with ⟨hlt, hr⟩ | ⟨hr, -⟩ <;> omega)
  | release =>
    obtain ⟨hpassed, d, hd, rfl⟩ := step_release h
    rcases resetSequence_cases hd with ⟨hr, rfl⟩ | ⟨hr, rfl⟩ | ⟨hr, rfl⟩
    · refine ⟨?_, ?_, ?_⟩
      · intro hn
        exact (Levels.drive_ne _ _ hb.resetMcu.symm).trans (hmcu hn)
      · intro h2
        simp only [hr] at h2; omega
      · intro h3
        simp only [hr] at h3; omega
    · refine ⟨?_, ?_, ?_⟩
      · intro hn
        exact (Levels.drive_ne _ _ hb.initMcu.symm).trans (hmcu hn)
      · intro _ hp
        cases hp
      · intro h3
        simp only [hr] at h3; omega
    · have hdone : s.doneSeen = true := hwait (by omega) hpassed
      refine ⟨?_, fun _ _ => hdone, fun _ => hdone⟩
      intro hn
      change s.doneSeen = false at hn
      rw [hdone] at hn
      cases hn
  | readDone level =>
    obtain rfl := step_readDone h
    cases level
    · simp only [Bool.or_false]
      exact ⟨hmcu, hwait, hbeyond⟩
    · exact ⟨fun hn => absurd hn (by simp), fun _ _ => by simp, fun _ => by simp⟩

/-- **Three pins suffice**, for every order of steps and every DONE waveform. -/
theorem safe_of_distinct (hb : b.Distinct) (ls : List Label) : Safe b ls := by
  have h0 : Inv b init :=
    ⟨fun _ => rfl, fun h => absurd h (by decide), fun h => absurd h (by decide)⟩
  refine ⟨h0.mcu, (sequence b).along_of_inv (Inv b) ?_ ls init h0⟩
  intro s l s' hi hs
  have hi' := inv_step hb hi hs
  exact ⟨hi', hi'.mcu, othersKept_of_distinct hb hs⟩

/-! ## Three lines on one pin -/

/-- Releasing a descriptor lifts a low pin that is also another's. -/
theorem not_othersKept (hj : j ≠ s.released) (hd' : (resetSequence b)[j]? = some d')
    (hs : s'.pins = s.pins.drive d'.pin true) (hlow : s.pins d'.pin = false) :
    ¬ OthersKept b s .release s' := by
  intro h
  have hkept := h s.released rfl j d' hj hd'
  rw [hs, Levels.drive_same, hlow] at hkept
  cases hkept

theorem not_safe (ls : List Label) (s s' : St) (hrun : (sequence b).exec init ls = some s)
    (hstep : (sequence b).step s .release = some s') (h : ¬ OthersKept b s .release s') :
    ¬ Safe b (ls ++ [.release]) := by
  rintro ⟨-, hsafe⟩
  exact h ((((sequence b).along_append hrun).mp hsafe).2 s' hstep).1.2

/-- **Three pins are needed**: on a board that shares one, releasing the first
or the second descriptor is unsafe. -/
theorem safe_iff_distinct (b : Board) : (∀ ls, Safe b ls) ↔ b.Distinct := by
  refine ⟨?_, safe_of_distinct⟩
  intro h
  have h01 : b.fpgaResetN ≠ b.fpgaInitN := fun he =>
    not_safe [] init _ rfl rfl
      (not_othersKept (j := 1) (by decide) rfl (congrArg (init.pins.drive · true) he) rfl) (h _)
  have h02 : b.fpgaResetN ≠ b.mcuResetN := fun he =>
    not_safe [] init _ rfl rfl
      (not_othersKept (j := 2) (by decide) rfl (congrArg (init.pins.drive · true) he) rfl) (h _)
  refine ⟨h01, h02, ?_⟩
  intro he
  -- the second release drives INIT, and with it the main MCU, still low after the first
  have hlow : (init.pins.drive b.fpgaResetN true) b.mcuResetN = false :=
    Levels.drive_ne _ _ h02.symm
  exact not_safe [.release] ⟨init.pins.drive b.fpgaResetN true, 1, true, false⟩ _ rfl rfl
    (not_othersKept (j := 2) (Nat.succ_ne_self 1) rfl
      (congrArg ((init.pins.drive b.fpgaResetN true).drive · true) he) hlow) (h _)

theorem kupLulz_safe (ls : List Label) : Safe kupLulz ls :=
  safe_of_distinct ⟨by decide, by decide, by decide⟩ ls

/-- Nothing has been released: the shared pin is low. -/
structure Held (s : St) : Prop where
  low : s.pins ifaces.mcuResetN = false
  released : s.released = 0
  passed : s.passed = true

theorem ifaces_pin (h : (resetSequence ifaces)[i]? = some d) : d.pin = ifaces.mcuResetN := by
  rcases resetSequence_cases h with ⟨-, rfl⟩ | ⟨-, rfl⟩ | ⟨-, rfl⟩ <;> rfl

theorem held_assert (hs : Held s) (h : step ifaces s (.assert i) = some s') :
    Held s' ∧ OthersKept ifaces s (.assert i) s' := by
  obtain ⟨d, hd, hpins, -, hrel⟩ := step_assert h
  have hpin := ifaces_pin hd
  have hrel' : s'.released = s.released ∧ s'.passed = s.passed := by
    rcases hrel with ⟨hlt, -⟩ | hrel
    · rw [hs.released] at hlt; cases hlt
    · exact hrel
  refine ⟨⟨?_, hrel'.1.trans hs.released, hrel'.2.trans hs.passed⟩, ?_⟩
  · rw [hpins, hpin, Levels.drive_same]
  · intro k hk j d' hj hd'
    rw [hpins, hpin, ifaces_pin hd', Levels.drive_same, hs.low]

theorem held_readDone {level : Bool} (hs : Held s) (h : step ifaces s (.readDone level) = some s') :
    Held s' ∧ OthersKept ifaces s (.readDone level) s' := by
  obtain rfl := step_readDone h
  exact ⟨⟨hs.low, hs.released, by simp [hs.passed]⟩, fun k hk => by cases hk⟩

/-- The first release lifts the pin under the other two descriptors. -/
theorem held_release (hs : Held s) (h : step ifaces s .release = some s') :
    ¬ OthersKept ifaces s .release s' := by
  obtain ⟨-, d, hd, rfl⟩ := step_release h
  have hpin := ifaces_pin hd
  exact not_othersKept (j := 1) (by rw [hs.released]; decide) rfl (by rw [hpin]; rfl) hs.low

theorem held_run (ls : List Label) (s : St) (hs : Held s)
    (hrun : ((sequence ifaces).exec s ls).isSome) :
    (sequence ifaces).Along (fun s l s' => McuHeld ifaces s' ∧ OthersKept ifaces s l s') s ls ↔
      .release ∉ ls := by
  induction ls generalizing s with
  | nil => exact ⟨fun _ => List.not_mem_nil, fun _ => trivial⟩
  | cons l ls ih =>
    obtain ⟨s'', hs''⟩ := Option.isSome_iff_exists.mp hrun
    obtain ⟨s', hs', hrest⟩ := (sequence ifaces).exec_cons.mp hs''
    have hrest := Option.isSome_iff_exists.mpr ⟨s'', hrest⟩
    -- a step that releases nothing keeps the pin low, and the rest decides
    have tail (hl : l ≠ .release) (hk : Held s' ∧ OthersKept ifaces s l s') :
        (sequence ifaces).Along (fun s l s' => McuHeld ifaces s' ∧ OthersKept ifaces s l s') s
          (l :: ls) ↔ .release ∉ l :: ls := by
      rw [List.mem_cons, not_or, ← ih s' hk.1 hrest]
      constructor
      · intro h
        exact ⟨fun he => hl he.symm, (h s' hs').2⟩
      · rintro ⟨-, h⟩ t ht
        obtain rfl := Option.some.inj (hs'.symm.trans ht)
        exact ⟨⟨fun _ => hk.1.low, hk.2⟩, h⟩
    cases l with
    | assert i => exact tail (by simp) (held_assert hs hs')
    | readDone level => exact tail (by simp) (held_readDone hs hs')
    | release =>
      constructor
      · intro h
        exact absurd (h s' hs').1.2 (held_release hs hs')
      · intro h
        exact absurd (List.mem_cons_self ..) h

/-- **On fpga-stm32-ifaces** a run is safe if and only if it releases nothing. -/
theorem ifaces_safe_iff (ls : List Label) (hrun : ((sequence ifaces).exec init ls).isSome) :
    Safe ifaces ls ↔ .release ∉ ls := by
  have hs : Held init := ⟨rfl, rfl, rfl⟩
  rw [← held_run ls init hs hrun]
  constructor
  · intro h
    exact h.2
  · intro h
    exact ⟨fun _ => rfl, h⟩

/-- Safe up to a release, and no longer. -/
theorem ifaces_safe_asserting :
    Safe ifaces [.assert 2, .readDone false] ∧
      ¬ Safe ifaces [.assert 2, .readDone false, .release] :=
  ⟨(ifaces_safe_iff [.assert 2, .readDone false] rfl).mpr (by decide),
    mt (ifaces_safe_iff [.assert 2, .readDone false, .release] rfl).mp (by decide)⟩

/-- Releasing the FPGA's PROG releases the main MCU, with DONE still low. -/
theorem ifaces_mcu_released : ∃ s, (sequence ifaces).exec init [.readDone false, .release] = some s ∧
    ¬ McuHeld ifaces s ∧ ¬ Safe ifaces [.readDone false, .release] := by
  refine ⟨_, rfl, by unfold McuHeld; decide, ?_⟩
  rintro ⟨-, h⟩
  exact absurd (((h _ rfl).2 _ rfl).1.1 rfl) (by decide)

end DevBoards.Supervisor.ResetSequence
