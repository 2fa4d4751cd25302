import DevBoards.SuperLink.Registers

/-!
# The version handshake

`InitSupervisor` (fpga-stm32-ifaces/firmware/main/bsp/hwinit.cpp) reads the
supervisor's three version strings into `g_superVersion`, `g_ibcVersion` and
`g_ibcHwVersion`. Its third loop stores into `g_ibcVersion`.

What lies between is outside the repository. Each byte the main MCU clocks
lands in its receive FIFO, and is the next byte the supervisor has queued, or
`idle` when there is none; `OnCommand` runs once per chip-select frame, on its
first byte, during the `Sleep` before the reply is clocked.

* `initSupervisor_spec`: what the three buffers hold afterwards.
* `delivered_iff`: they hold the three strings exactly when the second and
  third are empty.
-/
namespace DevBoards.SuperLink.Handshake

/-- The three buffers of 20 bytes. -/
inductive Buf | superVersion | ibcVersion | ibcHwVersion
deriving DecidableEq, Repr

structure St where
  mem : Mem
  /-- The supervisor's reply bytes, of which the driver's FIFO has room for 64;
  there is no bound here. -/
  queue : List UInt8
  /-- The frame's first byte is still to come. -/
  fresh : Bool
  /-- The frame's first byte, until `OnCommand` has run. -/
  command : Option UInt8
  /-- The main MCU's receive FIFO. -/
  rx : List UInt8
  buf : Buf → Vector UInt8 20

variable (ids : RegIds) (idle : UInt8)

/-- `g_superCS_n = 0` -/
def select (s : St) : St := { s with fresh := true }

/-- The main MCU clocks the byte `b` out and one in. -/
def clock (b : UInt8) (s : St) : St :=
  { s with rx := s.rx ++ [s.queue.headD idle], queue := s.queue.tail, fresh := false,
           command := if s.fresh then some b else s.command }

/-- `BlockingWrite(b); WaitForWrites()` -/
def blockingWrite (b : UInt8) (s : St) : St := clock idle b s

def discardRxData (s : St) : St := { s with rx := [] }

/-- `g_logTimer.Sleep(2)`: the supervisor handles the command. -/
def sleep (s : St) : St :=
  match s.command with
  | some b => { s with queue := s.queue ++ pushed s.mem (onCommand ids b), command := none }
  | none => s

def blockingRead (s : St) : UInt8 × St :=
  let s := clock idle 0 s
  (s.rx.headD idle, { s with rx := s.rx.tail })

def store (b : Buf) (i : Nat) (x : UInt8) (s : St) : St :=
  { s with buf := Function.update s.buf b ((s.buf b).setIfInBounds i x) }

/-- `for(size_t i = first; ...) buf[i] = BlockingRead()`, `n` times. -/
def readInto (b : Buf) (first : Nat) : Nat → St → St
  | 0, s => s
  | n + 1, s =>
    let (x, s) := blockingRead idle s
    readInto b (first + 1) n (store b first x s)

/-- One framed transaction: the reply goes to `dst`, the terminator to `term`.
Raising chip select at its end changes none of this. -/
def frame (reg : SuperReg) (dst term : Buf) (s : St) : St :=
  let s := select s
  let s := blockingWrite idle (ids.code reg) s
  let s := discardRxData s
  let s := sleep ids s
  let (_, s) := blockingRead idle s
  let s := readInto idle dst 0 20 s
  store term 19 0 s

/-- mirrors fpga-stm32-ifaces/firmware/main/bsp/hwinit.cpp:807-858 -/
def initSupervisor (s : St) : St :=
  let s := frame ids idle .version .superVersion .superVersion s
  let s := frame ids idle .ibcVersion .ibcVersion .ibcVersion s
  frame ids idle .ibcHwVersion .ibcVersion .ibcHwVersion s

/-- mirrors fpga-stm32-ifaces/firmware/main/bsp/hwinit.cpp:173-180 -/
def boot (m : Mem) (rx : List UInt8) : St :=
  ⟨m, [], false, none, rx, fun _ => Vector.replicate 20 0⟩

/-- The first 19 bytes of a string, and a NUL. -/
def terminated (v : Vector UInt8 20) : Vector UInt8 20 := v.setIfInBounds 19 0

/-- Each buffer holds its string. -/
structure Delivered (m : Mem) (s : St) : Prop where
  superVersion : s.buf .superVersion = terminated m.version
  ibcVersion : s.buf .ibcVersion = terminated m.ibcSwVersion
  ibcHwVersion : s.buf .ibcHwVersion = terminated m.ibcHwVersion

/-! ## The loops -/

/-- `v` with `xs` stored from index `first` on. -/
def fill (v : Vector UInt8 20) (first : Nat) : List UInt8 → Vector UInt8 20
  | [] => v
  | x :: xs => fill (v.setIfInBounds first x) (first + 1) xs

theorem fill_getElem (xs : List UInt8) (v : Vector UInt8 20) (first i : Nat) (hi : i < 20) :
    (fill v first xs)[i] = if first ≤ i then xs.getD (i - first) v[i] else v[i] := by
  induction xs generalizing v first with
  | nil => simp [fill]
  | cons x xs ih =>
    rw [fill, ih, Vector.getElem_setIfInBounds hi]
    rcases Nat.lt_trichotomy i first with h | rfl | h
    · simp [show ¬ first + 1 ≤ i by omega, show ¬ first ≤ i by omega, show ¬ first = i by omega]
    · simp [show ¬ i + 1 ≤ i by omega]
    · obtain ⟨k, rfl⟩ := Nat.exists_eq_add_of_lt h
      simp [show first + k + 1 - first = k + 1 by omega,
        show first + k + 1 - (first + 1) = k by omega, show first ≤ first + k + 1 by omega,
        show ¬ first = first + k + 1 by omega]

/-- Twenty bytes overwrite the whole buffer. -/
theorem fill_all (v w : Vector UInt8 20) : fill v 0 w.toList = w := by
  apply Vector.ext
  intro i hi
  simp [fill_getElem, hi]

variable {s : St}

theorem blockingRead_spec {x : UInt8} {rest : List UInt8} (hrx : s.rx = [])
    (hq : s.queue = x :: rest) (hf : s.fresh = false) :
    blockingRead idle s = (x, { s with queue := rest }) := by
  obtain ⟨mem, queue, fresh, command, rx, buf⟩ := s
  subst hrx hq hf
  rfl

theorem readInto_spec (b : Buf) (rest xs : List UInt8) (first : Nat) (s : St) (hrx : s.rx = [])
    (hq : s.queue = xs ++ rest) (hf : s.fresh = false) :
    readInto idle b first xs.length s =
      { s with queue := rest, buf := Function.update s.buf b (fill (s.buf b) first xs) } := by
  induction xs generalizing s first with
  | nil =>
    obtain ⟨mem, queue, fresh, command, rx, buf⟩ := s
    subst hq
    simp [readInto, fill]
  | cons x xs ih =>
    have hread := blockingRead_spec idle hrx hq hf
    rw [List.length_cons, readInto, hread]
    simp only
    rw [ih (first + 1) _ (by exact hrx) rfl (by exact hf)]
    simp [store, fill]

/-- **One frame**, from an empty reply queue: the string goes to `dst`, whole,
and the terminator to `term`. -/
theorem frame_spec (reg : SuperReg) (dst term : Buf) (w : Vector UInt8 20) (s : St)
    (hq : s.queue = []) (hw : s.mem.bytes reg = w.toList) :
    frame ids idle reg dst term s =
      store term 19 0 { s with fresh := false, command := none, rx := [],
                               buf := Function.update s.buf dst w } := by
  have hlen : w.toList.length = 20 := by simp
  have hreply := pushed_onCommand ids s.mem reg
  unfold frame
  have hsleep : sleep ids (discardRxData (blockingWrite idle (ids.code reg) (select s))) =
      { s with queue := 0 :: w.toList, fresh := false, command := none, rx := [] } := by
    obtain ⟨mem, queue, fresh, command, rx, buf⟩ := s
    subst hq
    simp only [sleep, discardRxData, blockingWrite, clock, select, if_true]
    simp [hreply, hw]
  simp only
  rw [hsleep, blockingRead_spec idle rfl rfl rfl]
  have hread := readInto_spec idle dst [] w.toList 0
    { s with queue := w.toList, fresh := false, command := none, rx := [] } rfl (by simp) rfl
  rw [hlen] at hread
  simp only
  rw [hread, fill_all]
  obtain ⟨mem, queue, fresh, command, rx, buf⟩ := s
  subst hq
  rfl

/-! ## The handshake -/

/-- The third transaction ends up in `g_ibcVersion`, unterminated. -/
theorem initSupervisor_spec (m : Mem) (rx : List UInt8) (b : Buf) :
    (initSupervisor ids idle (boot m rx)).buf b = match b with
      | .superVersion => terminated m.version
      | .ibcVersion => m.ibcHwVersion
      | .ibcHwVersion => Vector.replicate 20 0 := by
  unfold initSupervisor
  rw [frame_spec ids idle .version _ _ m.version (boot m rx) rfl rfl]
  simp only
  rw [frame_spec ids idle .ibcVersion _ _ m.ibcSwVersion _ rfl rfl,
    frame_spec ids idle .ibcHwVersion _ _ m.ibcHwVersion _ rfl rfl]
  cases b <;> simp [store, boot, terminated]

theorem terminated_getElem (v : Vector UInt8 20) (i : Nat) (hi : i < 20) :
    (terminated v)[i] = if i = 19 then 0 else v[i] := by
  unfold terminated
  rw [Vector.getElem_setIfInBounds hi]
  simp only [eq_comm]

/-- **Delivery** of all three strings, if and only if the IBC's hardware
version is all zero and its firmware version empty. -/
theorem delivered_iff (m : Mem) (rx : List UInt8) :
    Delivered m (initSupervisor ids idle (boot m rx)) ↔
      (∀ i (hi : i < 20), m.ibcHwVersion[i] = 0) ∧ ∀ i (hi : i < 19), m.ibcSwVersion[i] = 0 := by
  have hbuf := initSupervisor_spec ids idle m rx
  constructor
  · rintro ⟨-, hsw, hhw⟩
    rw [hbuf] at hsw hhw
    simp only at hsw hhw
    have hsw' : ∀ i (hi : i < 20), m.ibcHwVersion[i] =
        if i = 19 then (0 : UInt8) else m.ibcSwVersion[i] :=
      fun i hi => by rw [← terminated_getElem, ← hsw]
    have hhw' : ∀ i (hi : i < 20), (0 : UInt8) =
        if i = 19 then (0 : UInt8) else m.ibcHwVersion[i] :=
      fun i hi => by rw [← terminated_getElem, ← hhw, Vector.getElem_replicate]
    have hzero : ∀ i (hi : i < 20), m.ibcHwVersion[i] = 0 := fun i hi => by
      by_cases h : i = 19
      · have := hsw' i hi; rwa [if_pos h] at this
      · have := hhw' i hi; rw [if_neg h] at this; exact this.symm
    refine ⟨hzero, ?_⟩
    intro i hi
    have := hsw' i (by omega)
    rw [if_neg (Nat.ne_of_lt hi), hzero] at this
    exact this.symm
  · rintro ⟨hhw, hsw⟩
    refine ⟨hbuf _, (hbuf _).trans (Vector.ext ?_), (hbuf _).trans (Vector.ext ?_)⟩
    · intro i hi
      rw [terminated_getElem, hhw]
      split
      · rfl
      · exact (hsw i (by omega)).symm
    · intro i hi
      rw [terminated_getElem, Vector.getElem_replicate, hhw, ite_self]

/-- With the strings `AAA...` and `BBB...`, `g_ibcVersion` gets the second. -/
theorem hwVersion_misplaced : ¬ Delivered
    ⟨⟨Vector.replicate 20 0x56, Vector.replicate 20 0x41, Vector.replicate 20 0x42⟩,
      ⟨0, 0, 0, 0, 0, 0, 0, 0, 0, 0⟩⟩
    (initSupervisor .inOrder 0xff (boot
      ⟨⟨Vector.replicate 20 0x56, Vector.replicate 20 0x41, Vector.replicate 20 0x42⟩,
        ⟨0, 0, 0, 0, 0, 0, 0, 0, 0, 0⟩⟩ [])) := by
  intro h
  have hsw := h.ibcVersion
  rw [initSupervisor_spec] at hsw
  revert hsw
  decide

end DevBoards.SuperLink.Handshake
