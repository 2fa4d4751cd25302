import Mathlib.Algebra.Group.Nat.Defs
import DevBoards.Core.Machine
import DevBoards.SuperLink.Handshake

/-!
# Framed transactions, one after another

All that the main MCU of fpga-stm32-ifaces says to the supervisor is framed:
chip select, a command byte, a pause, one dummy byte, and some bytes of reply.
The reply queue outlives a frame, so what one frame leaves behind the next ones
read. `reply` is that queue alone. It has no bound, while the driver's FIFO has
64 entries: `frames_residue` is of the firmware only while no more are queued,
and frames in step never queue more than 21 (`reply_room`).

* `frames_residue`: over any sequence of frames, with any commands and lengths.
* `frames_aligned`: frames that leave one byte at most read what they ask for.
* `initSupervisor_report`: what `InitSupervisor` logs, sensors included.
-/
namespace DevBoards.SuperLink.Handshake

variable (ids : RegIds) (idle : UInt8)

/-- `BlockingRead`, `n` times. -/
def readBytes : Nat → St → List UInt8 × St
  | 0, s => ([], s)
  | n + 1, s =>
    let (x, s) := blockingRead idle s
    let (xs, s) := readBytes n s
    (x :: xs, s)

/-- A frame with the command `c` that reads `n` bytes after the dummy. -/
def transact (c : UInt8) (n : Nat) (s : St) : List UInt8 × St :=
  let s := select s
  let s := blockingWrite idle c s
  let s := discardRxData s
  let s := sleep ids s
  let (_, s) := blockingRead idle s
  readBytes idle n s

/-- mirrors fpga-stm32-ifaces/firmware/main/bsp/hwinit.cpp:898-918 -/
def readSupervisorRegister (r : Sensor) (s : St) : UInt16 × St :=
  let s := select s
  let s := blockingWrite idle (ids.code (.sensor r)) s
  let s := discardRxData s
  let s := sleep ids s
  let (_, s) := blockingRead idle s
  let (lo, s) := blockingRead idle s
  let (hi, s) := blockingRead idle s
  (word lo hi, s)

/-! ## The reply queue -/

/-- The first `n` bytes, with idle ones after the last. -/
def padded (n : Nat) (bytes : List UInt8) : List UInt8 :=
  (List.range n).map fun i => bytes.getD i idle

/-- What a frame does to the reply queue: the command's own byte takes the first
one, and the dummy read the next. -/
def reply (m : Mem) : Machine (List UInt8) (UInt8 × Nat) (List UInt8) where
  step q t :=
    let q := (q.tail ++ pushed m (onCommand ids t.1)).tail
    (q.drop t.2, padded idle t.2 q)

def frames : Machine St (UInt8 × Nat) (List UInt8) where
  step s t := ((transact ids idle t.1 t.2 s).2, (transact ids idle t.1 t.2 s).1)

variable {s : St}

theorem blockingRead_idle (hrx : s.rx = []) (hf : s.fresh = false) :
    blockingRead idle s = (s.queue.headD idle, { s with queue := s.queue.tail }) := by
  obtain ⟨mem, queue, fresh, command, rx, buf⟩ := s
  subst hrx hf
  rfl

theorem padded_succ (n : Nat) (bytes : List UInt8) :
    padded idle (n + 1) bytes = bytes.headD idle :: padded idle n bytes.tail := by
  unfold padded
  rw [List.range_succ_eq_map, List.map_cons, List.map_map]
  cases bytes with
  | nil => rfl
  | cons b bytes => rfl

theorem readBytes_spec (n : Nat) (s : St) (hrx : s.rx = []) (hf : s.fresh = false) :
    readBytes idle n s = (padded idle n s.queue, { s with queue := s.queue.drop n }) := by
  induction n generalizing s with
  | zero => rfl
  | succ n ih =>
    rw [readBytes, blockingRead_idle idle hrx hf]
    simp only
    rw [ih { s with queue := s.queue.tail } hrx hf, padded_succ]
    simp

/-- Between frames. -/
def between (s : St) (q : List UInt8) : St :=
  { s with queue := q, fresh := false, command := none, rx := [] }

theorem between_eq (hq : s.queue = []) (hf : s.fresh = false) (hc : s.command = none)
    (hrx : s.rx = []) : between s [] = s := by
  obtain ⟨mem, queue, fresh, command, rx, buf⟩ := s
  subst hq hf hc hrx
  rfl

/-- **One frame**, whatever was left behind. -/
theorem transact_spec (c : UInt8) (n : Nat) (s : St) :
    transact ids idle c n s =
      (((reply ids idle s.mem).step s.queue (c, n)).2,
        between s ((reply ids idle s.mem).step s.queue (c, n)).1) := by
  have hsleep : sleep ids (discardRxData (blockingWrite idle c (select s))) =
      between s (s.queue.tail ++ pushed s.mem (onCommand ids c)) := rfl
  unfold transact
  simp only
  rw [hsleep, blockingRead_idle idle rfl rfl]
  exact readBytes_spec idle n _ rfl rfl

/-- **What is left behind is read next**: over any sequence of frames, what they
return and leave is what the queue alone says, were the FIFO never full. -/
theorem frames_residue (ts : List (UInt8 × Nat)) (s : St) :
    (frames ids idle).outs s ts = (reply ids idle s.mem).outs s.queue ts ∧
      ((frames ids idle).final s ts).queue = (reply ids idle s.mem).final s.queue ts := by
  have hsim := (frames ids idle).simulation (reply ids idle s.mem)
    (fun s' q => s'.queue = q ∧ s'.mem = s.mem) (fun _ _ => True) id id
    (fun s' q t h _ => by
      obtain ⟨rfl, hmem⟩ := h
      rw [← hmem]
      unfold frames
      simp only [transact_spec]
      exact ⟨⟨rfl, rfl⟩, rfl⟩)
    ts s s.queue ⟨rfl, rfl⟩ ((frames ids idle).along_of_forall (fun _ _ _ => trivial) s)
  rw [List.map_id, List.map_id] at hsim
  exact ⟨hsim.2, hsim.1.1⟩

/-! ## Frames in step -/

/-- After a frame that left at most one byte, the most that is queued is a dummy
and a string. -/
theorem reply_room (m : Mem) (c : UInt8) {q : List UInt8} (hq : q.length ≤ 1) :
    (q.tail ++ pushed m (onCommand ids c)).length ≤ 21 := by
  have htail : q.tail = [] := List.eq_nil_of_length_eq_zero (by rw [List.length_tail]; omega)
  rw [htail, List.nil_append]
  unfold onCommand
  cases ids.decode c with
  | none => exact (by decide : 1 ≤ 21)
  | some r =>
    have hsize : r.size ≤ 20 := by cases r <;> simp [SuperReg.size]
    rw [pushed_append, pushed_append, pushed_bytes, List.length_append, List.length_append,
      m.length_bytes]
    exact Nat.add_le_add (Nat.le_refl 1) hsize

/-- A frame that asks for a register, after one that left at most one byte. -/
theorem reply_aligned (m : Mem) (r : SuperReg) (n : Nat) {q : List UInt8} (hq : q.length ≤ 1) :
    (reply ids idle m).step q (ids.code r, n) = ((m.bytes r).drop n, padded idle n (m.bytes r)) := by
  have htail : q.tail = [] := List.eq_nil_of_length_eq_zero (by rw [List.length_tail]; omega)
  unfold reply
  simp only [htail, pushed_onCommand, List.nil_append, List.tail_cons]

/-- **Frames in step.** If each frame but the last reads all but at most one
byte of its register, then every frame reads its own register from the first
byte on, and idle bytes after the last. -/
theorem frames_aligned (ts : List (SuperReg × Nat)) (s : St) (hq : s.queue.length ≤ 1)
    (hts : ∀ t ∈ ts.dropLast, t.1.size ≤ t.2 + 1) :
    (frames ids idle).outs s (ts.map fun t => (ids.code t.1, t.2)) =
      ts.map fun t => padded idle t.2 (s.mem.bytes t.1) := by
  rw [(frames_residue ids idle _ s).1]
  generalize s.mem = m
  generalize s.queue = q at hq
  induction ts generalizing q with
  | nil => rfl
  | cons t ts ih =>
    rw [List.map_cons, List.map_cons, Machine.outs_cons, reply_aligned ids idle m t.1 t.2 hq]
    cases ts with
    | nil => rfl
    | cons t' ts =>
      have hsize : t.1.size ≤ t.2 + 1 := hts t (List.mem_cons_self ..)
      have hleft : ((m.bytes t.1).drop t.2).length ≤ 1 := by
        rw [List.length_drop, m.length_bytes]
        omega
      exact congrArg _ (ih (fun u hu => hts u (List.mem_cons_of_mem _ hu)) _ hleft)

/-- 48 V at half an ampere. -/
def sample : Mem :=
  ⟨⟨Vector.replicate 20 0x56, Vector.replicate 20 0x41, Vector.replicate 20 0x42⟩,
    ⟨48000, 500, 0, 12000, 1900, 0, 0, 0, 0, 0⟩⟩

/-- A sensor, a version cut short by one byte, and another sensor. -/
theorem frames_aligned_mixed :
    (frames .inOrder 0xff).outs (boot sample [])
      [(3, 2), (0, 19), (4, 2)] = [[0x80, 0xbb], List.replicate 19 0x56, [0xf4, 0x01]] := by
  rw [show [((3 : UInt8), 2), (0, 19), (4, 2)] =
    [(SuperReg.sensor .ibcVin, 2), (SuperReg.version, 19), (SuperReg.sensor .ibcIin, 2)].map
      fun t => (RegIds.inOrder.code t.1, t.2) from rfl,
    frames_aligned .inOrder 0xff _ (boot sample []) (by decide) (by decide)]
  decide

/-! ## The report -/

inductive Arg
  | int (n : Int)
  | str (s : List UInt8)
deriving DecidableEq, Repr

/-- A line of the log: the format and the values. -/
structure Line where
  format : String
  args : List Arg
deriving DecidableEq, Repr

/-- A buffer printed with `%s`; undefined without a terminator. -/
def versionLine (format : String) (v : Vector UInt8 20) : Option Line :=
  if 0 ∈ v.toList then some ⟨format, [.str (v.toList.takeWhile (· ≠ 0))]⟩ else none

/-- `v / 1000, v % 1000` -/
def milliLine (format : String) (v : Int) : Line := ⟨format, [.int (v / 1000), .int (v % 1000)]⟩

def rawLine (format : String) (v : UInt16) : Line := ⟨format, [.int v.toNat]⟩

/-- `v * i / 1000` on two promoted operands; undefined if the product is no `int`. -/
def power (v i : UInt16) : Option Int :=
  if v.toNat * i.toNat < 2 ^ 31 then some (v.toNat * i.toNat / 1000 : Nat) else none

/-- mirrors fpga-stm32-ifaces/firmware/main/bsp/hwinit.cpp:860-895 -/
def readSensors (s : St) : Option (List Line × St) := do
  let (vin, s) := readSupervisorRegister ids idle .ibcVin s
  let (iin, s) := readSupervisorRegister ids idle .ibcIin s
  let pin ← power vin iin
  let (vout, s) := readSupervisorRegister ids idle .ibcVout s
  let (iout, s) := readSupervisorRegister ids idle .ibcIout s
  let pout ← power vout iout
  let (vsense, s) := readSupervisorRegister ids idle .ibcVsense s
  let (ibctemp, s) := readSupervisorRegister ids idle .ibcTemp s
  let (smcutemp, s) := readSupervisorRegister ids idle .ibcMcuTemp s
  let (ibc3v3, s) := readSupervisorRegister ids idle .ibc3v3 s
  let (mcutemp, s) := readSupervisorRegister ids idle .mcuTemp s
  let (super3v3, s) := readSupervisorRegister ids idle .v3v3 s
  pure ([milliLine "IBC input:  %2d.%03d V\n" vin.toNat, milliLine "            %2d.%03d A\n" iin.toNat,
    milliLine "            %2d.%03d W\n" pin, milliLine "    output: %2d.%03d V\n" vout.toNat,
    milliLine "            %2d.%03d A\n" iout.toNat, milliLine "            %2d.%03d W\n" pout,
    milliLine "    sense:  %2d.%03d V\n" vsense.toNat, rawLine "    DC-DC:  %uhk C\n" ibctemp,
    rawLine "    MCU:    %uhk C\n" smcutemp, milliLine "            %2d.%03d V\n" ibc3v3.toNat,
    rawLine "    Super:  %uhk C\n" mcutemp, milliLine "            %2d.%03d V\n" super3v3.toNat], s)

/-- mirrors fpga-stm32-ifaces/firmware/main/bsp/hwinit.cpp:807-896 -/
def report (s : St) : Option (List Line × St) := do
  let s := frame ids idle .version .superVersion .superVersion s
  let version ← versionLine "Firmware version:     %s\n" (s.buf .superVersion)
  let s := frame ids idle .ibcVersion .ibcVersion .ibcVersion s
  let ibcVersion ← versionLine "IBC firmware version: %s\n" (s.buf .ibcVersion)
  let s := frame ids idle .ibcHwVersion .ibcVersion .ibcHwVersion s
  let ibcHwVersion ← versionLine "IBC hardware version: %s\n" (s.buf .ibcHwVersion)
  let (lines, s) ← readSensors ids idle s
  pure (⟨"Initializing supervisor\n", []⟩ :: version :: ibcVersion :: ibcHwVersion :: lines, s)

theorem readSupervisorRegister_spec (r : Sensor) (s : St) (hq : s.queue.length ≤ 1) :
    readSupervisorRegister ids idle r s = (s.mem.get r, between s []) := by
  have hread := transact_spec ids idle (ids.code (.sensor r)) 2 s
  rw [reply_aligned ids idle s.mem (.sensor r) 2 hq] at hread
  have hbytes : s.mem.bytes (.sensor r) = [lowByte (s.mem.get r), highByte (s.mem.get r)] := rfl
  have hword : readSupervisorRegister ids idle r s =
      (word ((transact ids idle (ids.code (.sensor r)) 2 s).1.getD 0 0)
        ((transact ids idle (ids.code (.sensor r)) 2 s).1.getD 1 0),
        (transact ids idle (ids.code (.sensor r)) 2 s).2) := rfl
  rw [hword, hread, hbytes]
  exact congrArg₂ Prod.mk (word_bytes _) rfl

/-- The bytes before the terminator, which is at 19 at the latest. -/
def text (v : Vector UInt8 20) : List UInt8 := (terminated v).toList.takeWhile (· ≠ 0)

/-- The lines, from the supervisor's variables. -/
def lines (m : Mem) : List Line :=
  [⟨"Initializing supervisor\n", []⟩, ⟨"Firmware version:     %s\n", [.str (text m.version)]⟩,
    ⟨"IBC firmware version: %s\n", [.str (text m.ibcSwVersion)]⟩,
    ⟨"IBC hardware version: %s\n", [.str []]⟩,
    milliLine "IBC input:  %2d.%03d V\n" m.vin48.toNat,
    milliLine "            %2d.%03d A\n" m.iin.toNat,
    milliLine "            %2d.%03d W\n" (m.vin48.toNat * m.iin.toNat / 1000 : Nat),
    milliLine "    output: %2d.%03d V\n" m.vout12.toNat,
    milliLine "            %2d.%03d A\n" m.iout.toNat,
    milliLine "            %2d.%03d W\n" (m.vout12.toNat * m.iout.toNat / 1000 : Nat),
    milliLine "    sense:  %2d.%03d V\n" m.voutsense.toNat, rawLine "    DC-DC:  %uhk C\n" m.ibcTemp,
    rawLine "    MCU:    %uhk C\n" m.ibcMcuTemp, milliLine "            %2d.%03d V\n" m.ibc3v3.toNat,
    rawLine "    Super:  %uhk C\n" m.mcutemp, milliLine "            %2d.%03d V\n" m.voltage3v3.toNat]

/-- Both powers in microwatts are `int`s. -/
def Measurable (m : Mem) : Prop :=
  m.vin48.toNat * m.iin.toNat < 2 ^ 31 ∧ m.vout12.toNat * m.iout.toNat < 2 ^ 31

instance (m : Mem) : Decidable (Measurable m) := instDecidableAnd

theorem versionLine_terminated (format : String) (v : Vector UInt8 20) :
    versionLine format (terminated v) = some ⟨format, [.str (text v)]⟩ := by
  refine if_pos ?_
  have h19 : (terminated v)[19] = 0 := by rw [terminated_getElem, if_pos rfl]
  exact h19 ▸ Vector.mem_toList_iff.mpr (Vector.getElem_mem (by decide))

theorem versionLine_zero (format : String) :
    versionLine format (Vector.replicate 20 0) = some ⟨format, [.str []]⟩ := rfl

/-- The sensors, after any frame. -/
theorem readSensors_spec (s : St) (hq : s.queue = []) :
    readSensors ids idle s =
      if Measurable s.mem then some ((lines s.mem).drop 4, between s []) else none := by
  have hread (r : Sensor) : readSupervisorRegister ids idle r s = (s.mem.get r, between s []) :=
    readSupervisorRegister_spec ids idle r s (by rw [hq]; decide)
  have hread' (r : Sensor) : readSupervisorRegister ids idle r (between s []) =
      (s.mem.get r, between s []) :=
    readSupervisorRegister_spec ids idle r (between s []) (Nat.zero_le 1)
  unfold readSensors Measurable
  simp only [hread, hread', power, Sensors.get]
  by_cases hin : s.mem.vin48.toNat * s.mem.iin.toNat < 2 ^ 31
  · by_cases hout : s.mem.vout12.toNat * s.mem.iout.toNat < 2 ^ 31
    · simp only [hin, hout, if_true, and_self]
      rfl
    · simp only [hin, hout, if_true, if_false, and_false]
      rfl
  · simp only [hin, if_false, false_and]
    rfl

/-- **What `InitSupervisor` logs**, whatever the supervisor holds: the firmware
versions, an empty hardware version, and every sensor; defined just where
neither product of a voltage and a current leaves `int`. -/
theorem initSupervisor_report (m : Mem) (rx : List UInt8) :
    report ids idle (boot m rx) =
      if Measurable m then some (lines m, initSupervisor ids idle (boot m rx)) else none := by
  let s1 := frame ids idle .version .superVersion .superVersion (boot m rx)
  let s2 := frame ids idle .ibcVersion .ibcVersion .ibcVersion s1
  let s3 := frame ids idle .ibcHwVersion .ibcVersion .ibcHwVersion s2
  have h1 : s1 = _ := frame_spec ids idle .version .superVersion .superVersion m.version (boot m rx) rfl rfl
  have hq1 : s1.queue = [] ∧ s1.mem = m ∧ s1.buf .superVersion = terminated m.version := by
    rw [h1]
    exact ⟨rfl, rfl, rfl⟩
  have h2 : s2 = _ := frame_spec ids idle .ibcVersion .ibcVersion .ibcVersion m.ibcSwVersion s1 hq1.1
    (by rw [hq1.2.1]; rfl)
  have hq2 : s2.queue = [] ∧ s2.mem = m ∧ s2.buf .ibcVersion = terminated m.ibcSwVersion := by
    rw [h2]
    exact ⟨hq1.1, hq1.2.1, rfl⟩
  have h3 : s3 = _ := frame_spec ids idle .ibcHwVersion .ibcVersion .ibcHwVersion m.ibcHwVersion s2 hq2.1
    (by rw [hq2.2.1]; rfl)
  have hq3 : s3.queue = [] ∧ s3.mem = m ∧ between s3 [] = s3 := by
    rw [h3]
    exact ⟨hq2.1, hq2.2.1, between_eq hq2.1 rfl rfl rfl⟩
  have hhw : s3.buf .ibcHwVersion = Vector.replicate 20 0 :=
    initSupervisor_spec ids idle m rx .ibcHwVersion
  have hreport : report ids idle (boot m rx) =
      (versionLine "Firmware version:     %s\n" (s1.buf .superVersion)).bind fun version =>
        (versionLine "IBC firmware version: %s\n" (s2.buf .ibcVersion)).bind fun ibcVersion =>
          (versionLine "IBC hardware version: %s\n" (s3.buf .ibcHwVersion)).bind fun ibcHwVersion =>
            (readSensors ids idle s3).bind fun r =>
              some (⟨"Initializing supervisor\n", []⟩ :: version :: ibcVersion :: ibcHwVersion :: r.1,
                r.2) := rfl
  rw [hreport, hq1.2.2, hq2.2.2, hhw, versionLine_terminated, versionLine_terminated,
    versionLine_zero, readSensors_spec ids idle s3 hq3.1, hq3.2.1, hq3.2.2]
  by_cases hm : Measurable m
  · rw [if_pos hm, if_pos hm]
    rfl
  · rw [if_neg hm, if_neg hm]
    rfl

end DevBoards.SuperLink.Handshake
