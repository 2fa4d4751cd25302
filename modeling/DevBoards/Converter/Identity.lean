import Mathlib.Data.Nat.Digits.Defs
import Mathlib.Tactic.IntervalCases
import DevBoards.Core.Fields

/-!
# The identity of the processor

`DetectHardware` of the media converter (baset1-media-converter/firmware/main.cpp)
decodes the unique ID: the lot and the number of the wafer in bytes, and the
coordinates of the die on it in BCD. The thousands digit is weighted 100, as
the hundreds are, so the die at 1000 reads as the one at 100.

* `coordinate_eq`: what the code computes of four digits.
* `coordinate_eq_iff`: the digits it cannot tell apart.
* `identity_exact_iff`: it is lossless and BCD just where no coordinate has a
  thousands digit.
-/
namespace DevBoards.Converter

/-- The 96 bits, as the words `U_ID[0]` to `U_ID[2]`. -/
@[ext]
structure UId where
  word0 : BitVec 32
  word1 : BitVec 32
  word2 : BitVec 32
deriving DecidableEq, Repr

def nibble (word : BitVec 32) (shift : Nat) : BitVec 32 := (word >>> shift) &&& 0xf

def byte (word : BitVec 32) (shift : Nat) : BitVec 8 := ((word >>> shift) &&& 0xff).setWidth 8

/-- The code of both coordinates. -/
def coordinate (word : BitVec 32) (shift : Nat) : Int :=
  (nibble word shift + nibble word (shift + 4) * 10 + nibble word (shift + 8) * 100 +
    nibble word (shift + 12) * 100).toInt

/-- mirrors baset1-media-converter/firmware/main.cpp:278-282 -/
def waferX (uid : UId) : Int := coordinate uid.word0 16

/-- mirrors baset1-media-converter/firmware/main.cpp:283-287 -/
def waferY (uid : UId) : Int := coordinate uid.word0 0

/-- mirrors baset1-media-converter/firmware/main.cpp:289 -/
def waferNum (uid : UId) : BitVec 8 := (uid.word1 &&& 0xff).setWidth 8

/-- mirrors baset1-media-converter/firmware/main.cpp:290-300 -/
def waferLot (uid : UId) : List (BitVec 8) :=
  [byte uid.word2 24, byte uid.word2 16, byte uid.word2 8, byte uid.word2 0,
    byte uid.word1 24, byte uid.word1 16, byte uid.word1 8, 0]

/-- What is computed from the unique ID. -/
structure Die where
  waferLot : List (BitVec 8)
  waferNum : BitVec 8
  waferX : Int
  waferY : Int
deriving DecidableEq, Repr

def dieOf (uid : UId) : Die := ⟨waferLot uid, waferNum uid, waferX uid, waferY uid⟩

inductive Arg
  | int (n : Int)
  | str (s : List (BitVec 8))
  | lit (s : String)
deriving DecidableEq, Repr

/-- A line of the log: the format and the values. -/
structure Line where
  warning : Bool
  format : String
  args : List Arg
deriving DecidableEq, Repr

def Die.line (d : Die) : Line :=
  ⟨false, "Lot %s, wafer %d, die (%d, %d)\n",
    [.str d.waferLot, .int d.waferNum.toNat, .int d.waferX, .int d.waferY]⟩

/-- The lines logged, and what was computed from the unique ID.
mirrors baset1-media-converter/firmware/main.cpp:253-305 -/
def detectHardware (IDCODE : BitVec 32) (F_ID : BitVec 16) (uid : UId) : List Line × Option Die :=
  let rev : BitVec 16 := (IDCODE >>> 16).setWidth 16
  let device : BitVec 16 := (IDCODE &&& 0xfff).setWidth 16
  let head : List Line :=
    [⟨false, "Identifying hardware\n", []⟩,
      ⟨false, "Device = 0x%04x %04x\n", [.int device.toNat, .int rev.toNat]⟩]
  if device = 0x444 then
    let srev := if rev = 0x1000 then "A" else "(unknown)"
    let die := dieOf uid
    (head ++
      [⟨false, "STM32F03x stepping %s\n", [.lit srev]⟩,
        ⟨false, "4 kB total SRAM, 20 byte backup SRAM\n", []⟩,
        ⟨false, "%d kB Flash\n", [.int F_ID.toNat]⟩,
        die.line], some die)
  else (head ++ [⟨true, "Unknown device (0x%06x)\n", [.int device.toNat]⟩], none)

/-! ## BCD -/

/-- The digits that a coordinate is read from. -/
structure Decimal (word : BitVec 32) (shift : Nat) : Prop where
  units : (nibble word shift).toNat ≤ 9
  tens : (nibble word (shift + 4)).toNat ≤ 9
  hundreds : (nibble word (shift + 8)).toNat ≤ 9
  thousands : (nibble word (shift + 12)).toNat ≤ 9

/-- A unique ID with its coordinates in BCD. -/
structure DecimalUId extends UId where
  x : Decimal word0 16
  y : Decimal word0 0

/-- The number written in BCD in 16 bits of a word. -/
def bcd (word : BitVec 32) (shift : Nat) : Nat :=
  Nat.ofDigits 10 [(nibble word shift).toNat, (nibble word (shift + 4)).toNat,
    (nibble word (shift + 8)).toNat, (nibble word (shift + 12)).toNat]

theorem bcd_lt {word : BitVec 32} {shift : Nat} (h : Decimal word shift) :
    bcd word shift < 10000 := by
  have h0 := h.units; have h1 := h.tens; have h2 := h.hundreds; have h3 := h.thousands
  simp only [bcd, Nat.ofDigits_cons, Nat.ofDigits_nil]
  omega

/-! ## What the fields determine -/

theorem nibble_lt (word : BitVec 32) (shift : Nat) : (nibble word shift).toNat < 16 := by
  rw [nibble, Fields.shift_and_mask word 0xf shift (k := 4) rfl]
  exact BitVec.isLt _

theorem eq_of_nibbles {x y : BitVec 32} (h : ∀ i < 8, nibble x (4 * i) = nibble y (4 * i)) :
    x = y := by
  refine Fields.eq_of_fields (k := 4) (n := 8) (by decide) fun i hi => BitVec.eq_of_toNat_eq ?_
  have hi := congrArg BitVec.toNat (h i hi)
  rwa [nibble, nibble, Fields.shift_and_mask x 0xf _ (k := 4) rfl,
    Fields.shift_and_mask y 0xf _ (k := 4) rfl] at hi

theorem eq_of_bytes {x y : BitVec 32} (h : ∀ i < 4, byte x (8 * i) = byte y (8 * i)) : x = y := by
  have hbyte (word : BitVec 32) (shift : Nat) : byte word shift = word.extractLsb' shift 8 := by
    apply BitVec.eq_of_toNat_eq
    rw [byte, BitVec.toNat_setWidth, Fields.shift_and_mask word 0xff shift (k := 8) rfl]
    exact Nat.mod_eq_of_lt (BitVec.isLt _)
  refine Fields.eq_of_fields (k := 8) (n := 4) (by decide) fun i hi => ?_
  rw [← hbyte, ← hbyte]
  exact h i hi

/-- **What a coordinate comes to.** The sum stays far below 2^31. -/
theorem coordinate_eq (word : BitVec 32) (shift : Nat) :
    coordinate word shift = ((nibble word shift).toNat + 10 * (nibble word (shift + 4)).toNat +
      100 * ((nibble word (shift + 8)).toNat + (nibble word (shift + 12)).toNat) : Nat) := by
  have h0 := nibble_lt word shift
  have h1 := nibble_lt word (shift + 4)
  have h2 := nibble_lt word (shift + 8)
  have h3 := nibble_lt word (shift + 12)
  have hsum : (nibble word shift + nibble word (shift + 4) * 10 + nibble word (shift + 8) * 100 +
      nibble word (shift + 12) * 100).toNat = (nibble word shift).toNat +
        10 * (nibble word (shift + 4)).toNat +
          100 * ((nibble word (shift + 8)).toNat + (nibble word (shift + 12)).toNat) := by
    have h10 : (10 : BitVec 32).toNat = 10 := rfl
    have h100 : (100 : BitVec 32).toNat = 100 := rfl
    simp only [BitVec.toNat_add, BitVec.toNat_mul, h10, h100]
    omega
  rw [coordinate, BitVec.toInt_eq_toNat_of_lt (by omega), hsum]

theorem byte_zero (word : BitVec 32) : byte word 0 = (word &&& 0xff).setWidth 8 := by
  rw [byte, BitVec.ushiftRight_zero]

/-- The bytes are used once each: only the coordinates can coincide. -/
theorem dieOf_eq_iff (a b : UId) :
    dieOf a = dieOf b ↔ a.word1 = b.word1 ∧ a.word2 = b.word2 ∧ waferX a = waferX b ∧
      waferY a = waferY b := by
  constructor
  · intro hdie
    obtain ⟨hlot, hnum, hx, hy⟩ := Die.mk.inj hdie
    simp only [waferLot, List.cons.injEq] at hlot
    obtain ⟨h27, h23, h21, h20, h17, h15, h13, -⟩ := hlot
    simp only [waferNum, ← byte_zero] at hnum
    refine ⟨eq_of_bytes ?_, eq_of_bytes ?_, hx, hy⟩
    · intro i hi
      interval_cases i <;> assumption
    · intro i hi
      interval_cases i <;> assumption
  · rintro ⟨h1, h2, hx, hy⟩
    simp only [dieOf, waferLot, waferNum, h1, h2, hx, hy]

/-- Only the sum of hundreds and thousands is seen. -/
theorem coordinate_eq_iff {x y : BitVec 32} {shift : Nat} (hx : Decimal x shift)
    (hy : Decimal y shift) :
    coordinate x shift = coordinate y shift ↔
      nibble x shift = nibble y shift ∧ nibble x (shift + 4) = nibble y (shift + 4) ∧
        (nibble x (shift + 8)).toNat + (nibble x (shift + 12)).toNat =
          (nibble y (shift + 8)).toNat + (nibble y (shift + 12)).toNat := by
  have := hx.units; have := hx.tens; have := hy.units; have := hy.tens
  rw [coordinate_eq, coordinate_eq, ← BitVec.toNat_inj, ← BitVec.toNat_inj, Int.natCast_inj]
  omega

theorem coordinate_bcd_iff (word : BitVec 32) (shift : Nat) :
    coordinate word shift = bcd word shift ↔ nibble word (shift + 12) = 0 := by
  rw [coordinate_eq, bcd, Int.natCast_inj, ← BitVec.toNat_inj]
  have hzero : (0 : BitVec 32).toNat = 0 := rfl
  simp only [Nat.ofDigits_cons, Nat.ofDigits_nil, hzero]
  omega

/-! ## What is lost -/

/-- No coordinate has a thousands digit. -/
def NoThousands (uid : UId) : Prop := nibble uid.word0 28 = 0 ∧ nibble uid.word0 12 = 0

theorem bcd_iff (uid : UId) :
    (waferX uid = bcd uid.word0 16 ∧ waferY uid = bcd uid.word0 0) ↔ NoThousands uid :=
  and_congr (coordinate_bcd_iff _ _) (coordinate_bcd_iff _ _)

theorem half_eq {x y : BitVec 32} {shift : Nat} (hx : Decimal x shift) (hy : Decimal y shift)
    (hx3 : nibble x (shift + 12) = 0) (hy3 : nibble y (shift + 12) = 0)
    (h : coordinate x shift = coordinate y shift) :
    ∀ i < 4, nibble x (shift + 4 * i) = nibble y (shift + 4 * i) := by
  obtain ⟨h0, h1, hsum⟩ := (coordinate_eq_iff hx hy).mp h
  have h2 : nibble x (shift + 8) = nibble y (shift + 8) := by
    apply BitVec.eq_of_toNat_eq
    rw [hx3, hy3] at hsum
    omega
  intro i hi
  interval_cases i
  · exact h0
  · exact h1
  · exact h2
  · exact hx3.trans hy3.symm

/-- Without thousands digits the die determines the unique ID. -/
theorem dieOf_injective {a b : DecimalUId} (ha : NoThousands a.toUId) (hb : NoThousands b.toUId)
    (h : dieOf a.toUId = dieOf b.toUId) : a.toUId = b.toUId := by
  obtain ⟨h1, h2, hx, hy⟩ := (dieOf_eq_iff _ _).mp h
  have hhigh := half_eq a.x b.x ha.1 hb.1 hx
  have hlow := half_eq a.y b.y ha.2 hb.2 hy
  have h0 : a.word0 = b.word0 := by
    apply eq_of_nibbles
    intro i hi
    by_cases hhalf : i < 4
    · simpa using hlow i hhalf
    · have := hhigh (i - 4) (by omega)
      rwa [show 16 + 4 * (i - 4) = 4 * i by omega] at this
  exact UId.ext h0 h1 h2

/-- The processor is the one the firmware knows, so the unique ID is decoded. -/
def Known (IDCODE : BitVec 32) : Prop := (IDCODE &&& 0xfff).setWidth 16 = (0x444 : BitVec 16)

theorem detectHardware_die (IDCODE : BitVec 32) (F_ID : BitVec 16) (uid : UId) (d : Die) :
    (detectHardware IDCODE F_ID uid).2 = some d ↔ Known IDCODE ∧ dieOf uid = d := by
  unfold detectHardware Known
  dsimp only
  split
  · next hknown => exact ⟨fun h => ⟨hknown, Option.some.inj h⟩, fun h => congrArg some h.2⟩
  · next hother => exact ⟨fun h => (nomatch h), fun h => absurd h.1 hother⟩

/-- The coordinates computed are the numbers written in BCD in `U_ID[0]`. -/
def ReadsBcd (IDCODE : BitVec 32) (F_ID : BitVec 16) (uid : UId) : Prop :=
  ∀ d, (detectHardware IDCODE F_ID uid).2 = some d →
    d.waferX = bcd uid.word0 16 ∧ d.waferY = bcd uid.word0 0

theorem readsBcd_iff (IDCODE : BitVec 32) (F_ID : BitVec 16) (uid : UId) :
    ReadsBcd IDCODE F_ID uid ↔ (Known IDCODE → NoThousands uid) := by
  unfold ReadsBcd
  simp only [detectHardware_die]
  constructor
  · intro h hknown
    exact (bcd_iff uid).mp (h (dieOf uid) ⟨hknown, rfl⟩)
  · rintro h d ⟨hknown, rfl⟩
    exact (bcd_iff uid).mpr (h hknown)

/-- **The defect, exactly.** Two unique IDs are told apart and both read as BCD
if and only if neither has a thousands digit (or the processor is not the one
expected, and nothing is decoded). -/
theorem identity_exact_iff (IDCODE : BitVec 32) (F_ID : BitVec 16) (a b : DecimalUId) :
    ((∀ d, (detectHardware IDCODE F_ID a.toUId).2 = some d →
        (detectHardware IDCODE F_ID b.toUId).2 = some d → a.toUId = b.toUId) ∧
      ReadsBcd IDCODE F_ID a.toUId ∧ ReadsBcd IDCODE F_ID b.toUId) ↔
      (Known IDCODE → NoThousands a.toUId ∧ NoThousands b.toUId) := by
  rw [readsBcd_iff, readsBcd_iff]
  constructor
  · rintro ⟨-, ha, hb⟩ hknown
    exact ⟨ha hknown, hb hknown⟩
  · intro h
    refine ⟨?_, fun hknown => (h hknown).1, fun hknown => (h hknown).2⟩
    intro d ha hb
    obtain ⟨hknown, ha⟩ := (detectHardware_die ..).mp ha
    obtain ⟨-, hb⟩ := (detectHardware_die ..).mp hb
    exact dieOf_injective (h hknown).1 (h hknown).2 (ha.trans hb.symm)

def dieAt1023 : DecimalUId where
  toUId := ⟨0x10230456, 0x33343507, 0x51303132⟩
  x := by constructor <;> decide
  y := by constructor <;> decide

def dieAt123 : DecimalUId where
  toUId := ⟨0x01230456, 0x33343507, 0x51303132⟩
  x := by constructor <;> decide
  y := by constructor <;> decide

/-- Two dies of one wafer, at (1023, 456) and at (123, 456), read the same. -/
theorem identity_collides :
    (detectHardware 0x10000444 32 dieAt1023.toUId).2 =
        some ⟨[0x51, 0x30, 0x31, 0x32, 0x33, 0x34, 0x35, 0], 7, 123, 456⟩ ∧
      (detectHardware 0x10000444 32 dieAt123.toUId).2 =
        some ⟨[0x51, 0x30, 0x31, 0x32, 0x33, 0x34, 0x35, 0], 7, 123, 456⟩ ∧
      dieAt1023.toUId ≠ dieAt123.toUId := by
  decide

end DevBoards.Converter
