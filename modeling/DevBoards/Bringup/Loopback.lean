import Mathlib.Algebra.Group.Nat.Defs
import Mathlib.Data.Fintype.EquivFin
import Mathlib.Data.List.ReduceOption
import DevBoards.Core.Machine

/-!
# The FMC loopback test

Before it trusts the FPGA, `InitFPGA` (fpga-stm32-ifaces/firmware/main/bsp/hwinit.cpp)
writes 100000 successive numbers to a scratch register and reads each one back.
The bus has sixteen data lines, so a word crosses it in two halves.

* `loopback_log`: the lines it logs, whatever the register does with a number.
* `loopback_exact`: it finds every fault of the data lines, and none where
  there is none.
-/
namespace DevBoards.Bringup

inductive Severity | normal | error
deriving DecidableEq, Repr

structure Entry where
  severity : Severity
  format : String
  args : List Nat
deriving DecidableEq, Repr

def log (format : String) (args : List Nat) : Entry := ⟨.normal, format, args⟩

/-- `FDEVINFO.scratch`, across the bus. -/
structure Scratch (σ : Type) where
  write : BitVec 32 → σ → σ
  read : σ → BitVec 32 × σ

variable {σ : Type}

structure Loop (σ : Type) where
  device : σ
  tmp : BitVec 32
  errs : BitVec 32

def mismatch (i : Nat) (tmp readback : BitVec 32) : Entry :=
  ⟨.error, "Iteration %u: wrote 0x%08x, read 0x%08x\n", [i, tmp.toNat, readback.toNat]⟩

/-- The body of the loop.
mirrors fpga-stm32-ifaces/firmware/main/bsp/hwinit.cpp:498-506 -/
def pass (dev : Scratch σ) : Machine (Loop σ) Nat (Option Entry) where
  step s i :=
    let (readback, device) := dev.read (dev.write s.tmp s.device)
    if readback ≠ s.tmp then (⟨device, s.tmp + 1, s.errs + 1⟩, some (mismatch i s.tmp readback))
    else (⟨device, s.tmp + 1, s.errs⟩, none)

def count : Nat := 100000

def Loop.start (s : σ) : Loop σ := ⟨s, 0xbaadc0de, 0⟩

/-- mirrors fpga-stm32-ifaces/firmware/main/bsp/hwinit.cpp:491-509 -/
def loopback (dev : Scratch σ) (s : σ) : List Entry :=
  let is := List.range count
  ((pass dev).outs (.start s) is).reduceOption ++
    [log "%u iterations complete, %u errors\n" [count, ((pass dev).final (.start s) is).errs.toNat]]

/-! ## A register that answers a number with a number -/

/-- What is read back after `v` is written is `g v`, whatever was there before. -/
def Answers (dev : Scratch σ) (g : BitVec 32 → BitVec 32) : Prop :=
  ∀ v s, (dev.read (dev.write v s)).1 = g v

/-- The number written in iteration `i`. -/
def written (i : Nat) : BitVec 32 := 0xbaadc0de + BitVec.ofNat 32 i

variable {dev : Scratch σ} {g : BitVec 32 → BitVec 32}

/-- The iterations that fail. -/
def failing (g : BitVec 32 → BitVec 32) (n : Nat) : List Nat :=
  (List.range n).filter fun i => g (written i) ≠ written i

theorem failing_succ (n : Nat) :
    failing g (n + 1) = failing g n ++ if g (written n) ≠ written n then [n] else [] := by
  unfold failing
  rw [List.range_succ, List.filter_append]
  refine congrArg _ ?_
  by_cases h : g (written n) = written n
  · simp [h]
  · simp [h]

theorem written_succ (n : Nat) : written n + 1 = written (n + 1) := by
  unfold written
  rw [BitVec.add_assoc, BitVec.ofNat_add]
  rfl

/-- One iteration. -/
theorem pass_step (h : Answers dev g) {s : Loop σ} {n : Nat} (htmp : s.tmp = written n) :
    let bad := g (written n) ≠ written n
    ((pass dev).step s n).1.tmp = written (n + 1) ∧
      ((pass dev).step s n).1.errs = s.errs + (if bad then 1 else 0) ∧
      ((pass dev).step s n).2 =
        if bad then some (mismatch n (written n) (g (written n))) else none := by
  intro bad
  have hread := h (written n) s.device
  simp only [pass, htmp, hread]
  by_cases hbad : bad
  · simp only [if_pos hbad, if_pos (show g (written n) ≠ written n from hbad), written_succ]
    exact ⟨trivial, trivial, trivial⟩
  · simp only [if_neg hbad, if_neg (show ¬ g (written n) ≠ written n from hbad), written_succ]
    exact ⟨trivial, (BitVec.add_zero _).symm, trivial⟩

/-- **The loop**, after `n` iterations. -/
theorem pass_run (h : Answers dev g) (s : σ) (n : Nat) :
    let last := (pass dev).final (.start s) (List.range n)
    last.tmp = written n ∧ last.errs = BitVec.ofNat 32 (failing g n).length ∧
      ((pass dev).outs (.start s) (List.range n)).reduceOption =
        (failing g n).map fun i => mismatch i (written i) (g (written i)) := by
  induction n with
  | zero => exact ⟨rfl, rfl, rfl⟩
  | succ n ih =>
    obtain ⟨htmp, herrs, hlines⟩ := ih
    rw [List.range_succ, failing_succ, Machine.final_append, Machine.outs_append,
      List.reduceOption_append, hlines, List.map_append, List.length_append]
    obtain ⟨htmp', herrs', hline⟩ := pass_step h htmp
    refine ⟨htmp', herrs'.trans ?_, congrArg _ ?_⟩
    · rw [herrs, BitVec.ofNat_add]
      by_cases hbad : g (written n) ≠ written n
      · simp only [if_pos hbad]
        rfl
      · simp only [if_neg hbad]
        rfl
    · rw [Machine.outs_cons, hline]
      by_cases hbad : g (written n) ≠ written n
      · simp only [if_pos hbad]
        rfl
      · simp only [if_neg hbad]
        rfl

/-- **What the test logs**: the iterations that fail, in order, and how many. -/
theorem loopback_log (h : Answers dev g) (s : σ) :
    loopback dev s = ((failing g count).map fun i => mismatch i (written i) (g (written i))) ++
      [log "%u iterations complete, %u errors\n" [count, (failing g count).length]] := by
  obtain ⟨-, herrs, hlines⟩ := pass_run h s count
  have hle : (failing g count).length ≤ count :=
    Nat.le_trans (List.length_filter_le ..) (Nat.le_of_eq List.length_range)
  have hcount : count < 2 ^ 32 := by decide
  have hlength : (BitVec.ofNat 32 (failing g count).length).toNat = (failing g count).length :=
    BitVec.toNat_ofNat .. |>.trans (Nat.mod_eq_of_lt (by omega))
  unfold loopback
  dsimp only
  rw [hlines, herrs, hlength]

/-! ## The data lines -/

/-- A word crosses the bus in halves: what becomes of them. -/
def halves (f : BitVec 16 → BitVec 16) (v : BitVec 32) : BitVec 32 :=
  f (v.extractLsb' 16 16) ++ f (v.extractLsb' 0 16)

/-- A register behind data lines that may be stuck, crossed or shorted, and not
the same in both directions. The lines also carry the low half of the address;
that phase of an access is taken as fault-free, as is the selection. -/
def wired (out back : BitVec 16 → BitVec 16) : Scratch (BitVec 32) :=
  ⟨fun v _ => halves out v, fun s => (halves back s, s)⟩

theorem halves_halves (out back : BitVec 16 → BitVec 16) (v : BitVec 32) :
    halves back (halves out v) = halves (back ∘ out) v := by
  unfold halves
  rw [BitVec.extractLsb'_append_eq_left, BitVec.extractLsb'_append_eq_right]
  rfl

theorem halves_id {f : BitVec 16 → BitVec 16} (v : BitVec 32)
    (h : f (v.extractLsb' 16 16) = v.extractLsb' 16 16)
    (h' : f (v.extractLsb' 0 16) = v.extractLsb' 0 16) : halves f v = v := by
  unfold halves
  rw [h, h']
  exact @BitVec.extractLsb'_append_extractLsb' 16 16 v

theorem halves_low (f : BitVec 16 → BitVec 16) (v : BitVec 32) :
    (halves f v).extractLsb' 0 16 = f (v.extractLsb' 0 16) := BitVec.extractLsb'_append_eq_right

/-- Data lines that bring every half back as it was confuse no two of them. -/
theorem back_injective {out back : BitVec 16 → BitVec 16} (h : ∀ x, back (out x) = x) :
    Function.Injective back := by
  have hfinite : Finite (BitVec 16) := .of_injective BitVec.toFin fun x y hxy => BitVec.toFin_inj.mp hxy
  exact Finite.injective_iff_surjective.mpr fun x => ⟨out x, h x⟩

theorem wired_answers (out back : BitVec 16 → BitVec 16) :
    Answers (wired out back) (halves (back ∘ out)) := fun v _ => halves_halves out back v

/-- The low half takes every value within the first 65536 iterations. -/
theorem written_low (x : BitVec 16) : (written (x - 0xc0de).toNat).extractLsb' 0 16 = x := by
  apply BitVec.eq_of_toNat_eq
  have hx := x.isLt
  have hstart : (0xbaadc0de : BitVec 32).toNat = 0xbaadc0de := rfl
  have hlow : (0xc0de : BitVec 16).toNat = 0xc0de := rfl
  simp only [written, BitVec.extractLsb'_toNat, BitVec.toNat_add, BitVec.toNat_sub, BitVec.toNat_ofNat,
    Nat.shiftRight_zero]
  omega

theorem failing_low {f : BitVec 16 → BitVec 16} {x : BitVec 16} (hx : f x ≠ x) :
    (x - 0xc0de).toNat ∈ failing (halves f) count := by
  have hlt : (x - 0xc0de).toNat < count := Nat.lt_trans (x - 0xc0de).isLt (by decide)
  refine List.mem_filter.mpr ⟨List.mem_range.mpr hlt, decide_eq_true fun hsame => hx ?_⟩
  have hlow := congrArg (BitVec.extractLsb' 0 16) hsame
  rwa [halves_low, written_low] at hlow

/-- No iteration fails just if every half comes back as it was. -/
theorem failing_nil (f : BitVec 16 → BitVec 16) :
    failing (halves f) count = [] ↔ ∀ x, f x = x := by
  constructor
  · intro hnone x
    by_contra hx
    exact absurd (failing_low hx) (hnone ▸ List.not_mem_nil)
  · intro hid
    refine List.filter_eq_nil_iff.mpr fun i _ hi => ?_
    exact of_decide_eq_true hi (halves_id _ (hid _) (hid _))

/-- **The test is exact.** However the data lines distort a half on its way out
and back: the test reports no errors just if every half comes back as it was;
and every half that does not is in a line of its own in the log. -/
theorem loopback_exact (out back : BitVec 16 → BitVec 16) (s : BitVec 32) :
    let entries := loopback (wired out back) s
    (entries = [log "%u iterations complete, %u errors\n" [count, 0]] ↔ ∀ x, back (out x) = x) ∧
      ∀ x, back (out x) ≠ x → ∃ i v r, mismatch i v r ∈ entries ∧
        v.extractLsb' 0 16 = x ∧ r.extractLsb' 0 16 = back (out x) := by
  intro entries
  have hlog : entries = _ := loopback_log (wired_answers out back) s
  rw [hlog]
  refine ⟨Iff.trans ?_ (failing_nil (back ∘ out)), fun x hx => ?_⟩
  · constructor
    · intro hentries
      have hlength := congrArg List.length hentries
      rw [List.length_append, List.length_map] at hlength
      exact List.eq_nil_of_length_eq_zero (Nat.succ.inj hlength)
    · intro hnone
      rw [hnone]
      rfl
  · refine ⟨_, _, _, List.mem_append_left _ (List.mem_map_of_mem (failing_low (f := back ∘ out) hx)),
      written_low x, ?_⟩
    rw [halves_low, written_low]
    rfl

end DevBoards.Bringup
