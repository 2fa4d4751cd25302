import DevBoards.Bringup.Loopback
import DevBoards.Core.Fields

/-!
# `InitFPGA`

The whole of `InitFPGA` (fpga-stm32-ifaces/firmware/main/bsp/hwinit.cpp): two
waits, the loopback test, the identity of the part and of its bitstream. The
FPGA is outside the repository, and so is the driver of its flash; what the one
answers and the other logs is arbitrary. All that is read comes over the data
lines that the test is about.

* `eq_timestamp_iff`: the bitstream's time and its usercode are one.
* `initFPGA_report`: when it returns, and what can be read off its log.
-/
namespace DevBoards.Bringup

/-! ## The bitstream's time -/

/-- XAPP1232: the bits of a usercode, as a time. -/
@[ext] structure Timestamp where
  day : Nat
  mon : Nat
  yr : Nat
  hr : Nat
  min : Nat
  sec : Nat
  day_lt : day < 32
  mon_lt : mon < 16
  yr_le : 2000 ≤ yr
  yr_lt : yr < 2064
  hr_lt : hr < 32
  min_lt : min < 64
  sec_lt : sec < 64

theorem field_lt (x mask : BitVec 32) (n : Nat) (h : mask.toNat < n) : (x &&& mask).toNat < n := by
  rw [BitVec.toNat_and]
  exact Nat.lt_of_le_of_lt Nat.and_le_right h

/-- mirrors fpga-stm32-ifaces/firmware/main/bsp/hwinit.cpp:595-600 -/
def timestamp (usercode : BitVec 32) : Timestamp where
  day := (usercode >>> 27).toNat
  mon := ((usercode >>> 23) &&& 0xf).toNat
  yr := 2000 + ((usercode >>> 17) &&& 0x3f).toNat
  hr := ((usercode >>> 12) &&& 0x1f).toNat
  min := ((usercode >>> 6) &&& 0x3f).toNat
  sec := (usercode &&& 0x3f).toNat
  day_lt := by
    rw [BitVec.toNat_ushiftRight, Nat.shiftRight_eq_div_pow]
    omega
  mon_lt := field_lt _ _ _ (by decide)
  yr_le := Nat.le_add_right ..
  yr_lt := Nat.add_lt_add_left (field_lt _ 0x3f 64 (by decide)) 2000
  hr_lt := field_lt _ _ _ (by decide)
  min_lt := field_lt _ _ _ (by decide)
  sec_lt := field_lt _ _ _ (by decide)

def Timestamp.args (t : Timestamp) : List Nat := [t.yr, t.mon, t.day, t.hr, t.min, t.sec]

/-- The usercode that the bitstream was given.
mirrors fpga-stm32-ifaces/firmware/main/bsp/hwinit.cpp:588-594 -/
def Timestamp.usercode (t : Timestamp) : BitVec 32 :=
  BitVec.ofNat 32 (t.day * 2 ^ 27 + t.mon * 2 ^ 23 + (t.yr - 2000) * 2 ^ 17 + t.hr * 2 ^ 12 +
    t.min * 2 ^ 6 + t.sec)

/-- A shift and a mask of ones, on numbers. -/
theorem field_toNat (x mask : BitVec 32) (start : Nat) {k : Nat} (h : mask.toNat = 2 ^ k - 1) :
    ((x >>> start) &&& mask).toNat = x.toNat / 2 ^ start % 2 ^ k := by
  rw [Fields.shift_and_mask x mask start h, BitVec.extractLsb'_toNat, Nat.shiftRight_eq_div_pow]

theorem timestamp_fields (u : BitVec 32) :
    (timestamp u).day = u.toNat / 2 ^ 27 ∧ (timestamp u).mon = u.toNat / 2 ^ 23 % 2 ^ 4 ∧
      (timestamp u).yr = 2000 + u.toNat / 2 ^ 17 % 2 ^ 6 ∧
      (timestamp u).hr = u.toNat / 2 ^ 12 % 2 ^ 5 ∧ (timestamp u).min = u.toNat / 2 ^ 6 % 2 ^ 6 ∧
      (timestamp u).sec = u.toNat % 2 ^ 6 := by
  refine ⟨?_, field_toNat u 0xf 23 rfl, congrArg (2000 + ·) (field_toNat u 0x3f 17 rfl),
    field_toNat u 0x1f 12 rfl, field_toNat u 0x3f 6 rfl, ?_⟩
  · exact BitVec.toNat_ushiftRight .. |>.trans (Nat.shiftRight_eq_div_pow ..)
  · exact BitVec.toNat_and .. |>.trans (Nat.and_two_pow_sub_one_eq_mod u.toNat 6)

theorem toNat_usercode (t : Timestamp) : t.usercode.toNat =
    t.day * 2 ^ 27 + t.mon * 2 ^ 23 + (t.yr - 2000) * 2 ^ 17 + t.hr * 2 ^ 12 + t.min * 2 ^ 6 + t.sec := by
  obtain ⟨day, mon, yr, hr, min, sec, hday, hmon, hyr, hyr', hhr, hmin, hsec⟩ := t
  rw [Timestamp.usercode, BitVec.toNat_ofNat]
  dsimp only
  omega

theorem usercode_timestamp (u : BitVec 32) : (timestamp u).usercode = u := by
  obtain ⟨hday, hmon, hyr, hhr, hmin, hsec⟩ := timestamp_fields u
  apply BitVec.eq_of_toNat_eq
  have hu := u.isLt
  rw [toNat_usercode, hday, hmon, hyr, hhr, hmin, hsec]
  omega

theorem timestamp_usercode (t : Timestamp) : timestamp t.usercode = t := by
  have hu := toNat_usercode t
  obtain ⟨hday, hmon, hyr, hhr, hmin, hsec⟩ := timestamp_fields t.usercode
  generalize t.usercode = u at *
  have := t.day_lt
  have := t.mon_lt
  have := t.yr_le
  have := t.yr_lt
  have := t.hr_lt
  have := t.min_lt
  have := t.sec_lt
  apply Timestamp.ext
  · rw [hday]
    omega
  · rw [hmon]
    omega
  · rw [hyr]
    omega
  · rw [hhr]
    omega
  · rw [hmin]
    omega
  · rw [hsec]
    omega

/-- **The time and the usercode are one**: each determines the other. -/
theorem eq_timestamp_iff {t : Timestamp} {u : BitVec 32} : t = timestamp u ↔ t.usercode = u :=
  ⟨fun h => h ▸ usercode_timestamp u, fun h => h ▸ (timestamp_usercode t).symm⟩

/-! ## The function -/

/-- What the FPGA is found to be: the samples of DONE; its data lines, out and
back; and what it holds in its registers, `status` read after read. -/
structure Fpga where
  done : List Bool
  out : BitVec 16 → BitVec 16
  back : BitVec 16 → BitVec 16
  /-- before the test -/
  scratch : BitVec 32
  status : List (BitVec 32)
  idcode : BitVec 32
  /-- two bytes to a half-word -/
  serial : Fin 4 → BitVec 16
  usercode : BitVec 32
  /-- what the constructor of `APB_SpiFlashInterface` logs -/
  flash : List Entry

namespace Fpga

/-- A register, as it is read. -/
def read (f : Fpga) (v : BitVec 32) : BitVec 32 := halves f.back v

/-- The bytes of the serial number, as they are read.
mirrors fpga-stm32-ifaces/firmware/main/bsp/hwinit.cpp:553 -/
def readSerial (f : Fpga) (i : Fin 8) : BitVec 8 :=
  (f.back (f.serial ⟨i / 2, by omega⟩)).extractLsb' (8 * (i % 2)) 8

end Fpga

/-- What `InitFPGA` leaves behind, in the log, the globals and `FPGA_GPIOA`. -/
structure Up where
  entries : List Entry
  g_fpgaSerial : Fin 8 → BitVec 8
  g_usercode : BitVec 32
  tris : BitVec 32
  gpioOut : BitVec 32

/-- mirrors fpga-stm32-ifaces/firmware/main/bsp/hwinit.cpp:555-577 -/
def idcodeFormat (part : BitVec 32) : String :=
  if part = 0x3647093 then "IDCODE: %08x (XC7K70T rev %d)\n"
  else if part = 0x364c093 then "IDCODE: %08x (XC7K160T rev %d)\n"
  else if part = 0x37c4093 then "IDCODE: %08x (XC7S25 rev %d)\n"
  else if part = 0x4a63093 then "IDCODE: %08x (XCKU3P rev %d)\n"
  else "IDCODE: %08x (unknown device, rev %d)\n"

def idcodeLine (idcode : BitVec 32) : Entry :=
  log (idcodeFormat (idcode &&& 0x0fffffff)) [idcode.toNat, (idcode >>> 28).toNat]

def serialFormat : String := "Serial: %02x%02x%02x%02x%02x%02x%02x%02x\n"

def serialLine (serial : Fin 8 → BitVec 8) : Entry :=
  log serialFormat ([7, 6, 5, 4, 3, 2, 1, 0].map fun i : Fin 8 => (serial i).toNat)

def timestampFormat : String := "Bitstream timestamp: %04d-%02d-%02d %02d:%02d:%02d\n"

def timestampLine (t : Timestamp) : Entry := log timestampFormat t.args

/-- All that `InitFPGA` itself logs. -/
def entries (f : Fpga) : List Entry :=
  [log "Initializing FPGA\n" [], log "Waiting for FPGA boot\n" [], log "FMC loopback test...\n" []] ++
    loopback (wired f.out f.back) f.scratch ++
    [idcodeLine (f.read f.idcode), serialLine f.readSerial,
      log "Usercode: %08x\n" [(f.read f.usercode).toNat],
      timestampLine (timestamp (f.read f.usercode)), log "Initializing FPGA flash\n" []]

/-- `none` if it never returns.
mirrors fpga-stm32-ifaces/firmware/main/bsp/hwinit.cpp:477-610,646-652 -/
def initFPGA (f : Fpga) : Option Up :=
  if true ∈ f.done then
    if 3 ∈ f.status.map f.read then
      some ⟨entries f ++ f.flash, f.readSerial, f.read f.usercode,
        halves f.out 0xfffffff0, halves f.out 0x5⟩
    else none
  else none

/-- The test has two kinds of lines. -/
theorem loopback_formats {f : Fpga} {e : Entry} (h : e ∈ loopback (wired f.out f.back) f.scratch) :
    e.format = "Iteration %u: wrote 0x%08x, read 0x%08x\n" ∨
      e.format = "%u iterations complete, %u errors\n" := by
  rw [loopback_log (wired_answers f.out f.back)] at h
  rcases List.mem_append.mp h with h | h
  · obtain ⟨i, -, rfl⟩ := List.mem_map.mp h
    exact .inl rfl
  · rw [List.mem_singleton.mp h]
    exact .inr rfl

theorem loopback_errors (f : Fpga) :
    (∀ e ∈ loopback (wired f.out f.back) f.scratch, e.severity = .normal) ↔
      ∀ x, f.back (f.out x) = x := by
  rw [loopback_log (wired_answers f.out f.back)]
  refine Iff.trans ?_ (failing_nil (f.back ∘ f.out))
  constructor
  · intro hnormal
    by_contra hne
    obtain ⟨i, hi⟩ := List.exists_mem_of_ne_nil _ hne
    exact absurd (hnormal _ (List.mem_append_left _ (List.mem_map_of_mem hi))) nofun
  · intro hnone e he
    rw [hnone] at he
    rw [List.mem_singleton.mp he]
    rfl

theorem timestampLine_inj {t t' : Timestamp} : timestampLine t = timestampLine t' ↔ t = t' := by
  refine ⟨fun h => ?_, congrArg _⟩
  have hargs : t.args = t'.args := congrArg Entry.args h
  simp only [Timestamp.args, List.cons.injEq, and_true] at hargs
  obtain ⟨hyr, hmon, hday, hhr, hmin, hsec⟩ := hargs
  exact Timestamp.ext hday hmon hyr hhr hmin hsec

theorem serialLine_inj {s s' : Fin 8 → BitVec 8} : serialLine s = serialLine s' ↔ s = s' := by
  refine ⟨fun h => funext fun i => ?_, congrArg _⟩
  have hargs : ([7, 6, 5, 4, 3, 2, 1, 0].map fun i : Fin 8 => (s i).toNat) =
    [7, 6, 5, 4, 3, 2, 1, 0].map fun i => (s' i).toNat := congrArg Entry.args h
  exact BitVec.eq_of_toNat_eq (List.map_inj_left.mp hargs i (by revert i; decide))

/-- A line with one of the two formats is one of the two lines. -/
theorem mem_entries (f : Fpga) {e : Entry}
    (h : e.format = serialFormat ∨ e.format = timestampFormat) :
    e ∈ entries f ↔ e = serialLine f.readSerial ∨
      e = timestampLine (timestamp (f.read f.usercode)) := by
  have hne (format : String) (args : List Nat)
      (hformat : format ≠ serialFormat ∧ format ≠ timestampFormat) : e ≠ log format args := by
    rintro rfl
    exact h.elim hformat.1 hformat.2
  have hloop : e ∉ loopback (wired f.out f.back) f.scratch := by
    intro hmem
    rcases loopback_formats hmem with hf | hf
    · rw [hf] at h
      exact absurd h (by decide)
    · rw [hf] at h
      exact absurd h (by decide)
  have hidcode : e ≠ idcodeLine (f.read f.idcode) := by
    refine hne _ _ ?_
    unfold idcodeFormat
    split_ifs <;> decide
  unfold entries
  simp only [List.mem_append, List.mem_cons, List.not_mem_nil, or_false, false_or, hloop, hidcode,
    hne "Initializing FPGA\n" [] (by decide), hne "Waiting for FPGA boot\n" [] (by decide),
    hne "FMC loopback test...\n" [] (by decide), hne "Initializing FPGA flash\n" [] (by decide),
    hne "Usercode: %08x\n" [(f.read f.usercode).toNat] (by decide)]

/-- No line is an error just if every half comes back as it was. -/
theorem entries_normal (f : Fpga) :
    (∀ e ∈ entries f, e.severity = .normal) ↔ ∀ x, f.back (f.out x) = x := by
  rw [← loopback_errors]
  unfold entries
  simp only [List.forall_mem_append, List.forall_mem_cons, List.not_mem_nil, false_implies,
    implies_true, and_true]
  exact ⟨fun h => h.1.2, fun h => ⟨⟨⟨rfl, rfl, rfl⟩, h⟩, rfl, rfl, rfl, rfl, rfl⟩⟩

theorem timestampLine_mem (f : Fpga) (t : Timestamp) :
    timestampLine t ∈ entries f ↔ t.usercode = f.read f.usercode := by
  have hne : timestampLine t ≠ serialLine f.readSerial := fun h =>
    absurd (show timestampFormat = serialFormat from congrArg Entry.format h) (by decide)
  rw [mem_entries f (.inr rfl), or_iff_right hne, timestampLine_inj, eq_timestamp_iff]

theorem serialLine_mem (f : Fpga) (serial : Fin 8 → BitVec 8) :
    serialLine serial ∈ entries f ↔ serial = f.readSerial := by
  have hne : serialLine serial ≠ timestampLine (timestamp (f.read f.usercode)) := fun h =>
    absurd (show serialFormat = timestampFormat from congrArg Entry.format h) (by decide)
  rw [mem_entries f (.inl rfl), or_iff_left hne, serialLine_inj]

/-- **What `InitFPGA` is worth.** It returns just if DONE goes high and the
status is read as 3. Of the lines it logs itself, before those of the flash
driver, none is an error just if every half of a word comes back as it was; one
tells the usercode and one the serial number, each as it is read. Lines that
undo on the way back what they do on the way out pass the test, and what is read
over them need not be what the FPGA holds; but it is never the same for two
half-words that differ. -/
theorem initFPGA_report (f : Fpga) :
    ((initFPGA f).isSome = true ↔ true ∈ f.done ∧ ∃ s ∈ f.status, f.read s = 3) ∧
      ∀ up ∈ initFPGA f, ∃ own, up.entries = own ++ f.flash ∧
        ((∀ e ∈ own, e.severity = .normal) ↔ ∀ x, f.back (f.out x) = x) ∧
        ((∀ e ∈ own, e.severity = .normal) → Function.Injective f.back) ∧
        (∀ t, timestampLine t ∈ own ↔ t.usercode = f.read f.usercode) ∧
        ∀ serial, serialLine serial ∈ own ↔ serial = f.readSerial := by
  rw [← List.mem_map]
  unfold initFPGA
  by_cases hdone : true ∈ f.done
  · by_cases hstatus : 3 ∈ f.status.map f.read
    · rw [if_pos hdone, if_pos hstatus]
      refine ⟨iff_of_true rfl ⟨hdone, hstatus⟩, ?_⟩
      rintro up ⟨⟩
      exact ⟨entries f, rfl, entries_normal f, fun h => back_injective ((entries_normal f).mp h),
        timestampLine_mem f, serialLine_mem f⟩
    · rw [if_pos hdone, if_neg hstatus]
      exact ⟨iff_of_false Bool.false_ne_true fun h => hstatus h.2, nofun⟩
  · rw [if_neg hdone]
    exact ⟨iff_of_false Bool.false_ne_true fun h => hdone h.1, nofun⟩

end DevBoards.Bringup
