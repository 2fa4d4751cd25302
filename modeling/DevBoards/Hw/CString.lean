import Mathlib.Tactic.TypeStar

/-!
# NUL-terminated strings

What the firmware uses of `<string.h>`. A `CString` is the bytes before the
terminator, none of them 0; reading at its length gives the terminator.

* `strstr_eq_zero_iff`: `strstr(s, t) == s` says that `t` is a prefix of `s`.
* `strcmp_eq_zero_iff`: `strcmp` is 0 exactly on equal strings.
-/
namespace DevBoards

structure CString where
  bytes : List UInt8
  nonzero : 0 ∉ bytes
deriving DecidableEq

namespace CString

/-- `s[i]`, for `i` up to the length. -/
def get (s : CString) (i : Nat) : UInt8 := s.bytes.getD i 0

/-- The offset of the first occurrence of `t`, if any. -/
def find (t : List UInt8) : List UInt8 → Option Nat
  | [] => if t = [] then some 0 else none
  | b :: bs => if t.isPrefixOf (b :: bs) then some 0 else (find t bs).map (· + 1)

/-- `strstr(s, t)`, as an offset into `s`; `none` for NULL. -/
def strstr (s t : CString) : Option Nat := find t.bytes s.bytes

/-- The difference of the first two bytes that differ, the terminators included. -/
def compare : List UInt8 → List UInt8 → Int
  | [], [] => 0
  | [], b :: _ => 0 - b.toNat
  | a :: _, [] => a.toNat
  | a :: as, b :: bs => if a = b then compare as bs else a.toNat - b.toNat

def strcmp (s t : CString) : Int := compare s.bytes t.bytes

theorem ext_bytes {s t : CString} (h : s.bytes = t.bytes) : s = t := by
  cases s; cases t; cases h; rfl

theorem find_eq_zero_iff (t s : List UInt8) : find t s = some 0 ↔ t <+: s := by
  cases s with
  | nil => simp [find]
  | cons b bs =>
    unfold find
    split
    · rename_i h
      exact iff_of_true rfl (List.isPrefixOf_iff_prefix.mp h)
    · rename_i h
      refine iff_of_false ?_ (fun hp => h (List.isPrefixOf_iff_prefix.mpr hp))
      cases find t bs <;> simp

theorem strstr_eq_zero_iff (s t : CString) : strstr s t = some 0 ↔ t.bytes <+: s.bytes :=
  find_eq_zero_iff _ _

theorem toNat_pos {b : UInt8} (h : b ≠ 0) : 0 < b.toNat :=
  Nat.pos_of_ne_zero fun h0 => h (UInt8.toNat_inj.mp h0)

theorem compare_eq_zero_iff (s t : List UInt8) (hs : 0 ∉ s) (ht : 0 ∉ t) :
    compare s t = 0 ↔ s = t := by
  induction s generalizing t with
  | nil =>
    cases t with
    | nil => simp [compare]
    | cons b bs =>
      have := toNat_pos (b := b) fun h => ht (h ▸ List.mem_cons_self ..)
      simp only [compare, reduceCtorEq, iff_false]
      omega
  | cons a as ih =>
    cases t with
    | nil =>
      have := toNat_pos (b := a) fun h => hs (h ▸ List.mem_cons_self ..)
      simp only [compare, reduceCtorEq, iff_false]
      omega
    | cons b bs =>
      have hrest := ih bs (fun h => hs (List.mem_cons_of_mem a h))
        (fun h => ht (List.mem_cons_of_mem b h))
      unfold compare
      split
      · rename_i hab
        rw [hrest, hab]
        simp
      · rename_i hab
        refine iff_of_false (fun h => hab (UInt8.toNat_inj.mp (by omega))) (by simp [hab])

theorem strcmp_eq_zero_iff (s t : CString) : strcmp s t = 0 ↔ s = t :=
  (compare_eq_zero_iff _ _ s.nonzero t.nonzero).trans ⟨ext_bytes, congrArg bytes⟩

end CString
end DevBoards
