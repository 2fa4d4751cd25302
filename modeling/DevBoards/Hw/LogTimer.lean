import Mathlib.Algebra.Group.Nat.Defs

/-!
# The logger's timer

`g_logTimer` and `g_log` are outside the repository. Time is the real time in
ticks. The counter reads the time since `base`, reduced to 32 bits;
`UpdateOffset(max)` returns true exactly when the counter has reached `max`,
and then moves it back by `max`, that is, adds `max` to `base`.
-/
namespace DevBoards

structure LogTimer where
  /-- The real time at which the counter read 0. -/
  base : Nat
deriving DecidableEq, Repr

namespace LogTimer

/-- `g_logTimer.GetCount()` at the real time `now`. -/
def getCount (l : LogTimer) (now : Nat) : UInt32 := UInt32.ofNat (now - l.base)

/-- `g_log.UpdateOffset(max)` at the real time `now`. -/
def updateOffset (l : LogTimer) (max : UInt32) (now : Nat) : LogTimer × Bool :=
  if max ≤ l.getCount now then (⟨l.base + max.toNat⟩, true) else (l, false)

variable (l : LogTimer)

theorem toNat_getCount (now : Nat) (h : now < l.base + 2 ^ 32) :
    (l.getCount now).toNat = now - l.base := by
  unfold getCount
  rw [UInt32.toNat_ofNat_of_lt']
  show now - l.base < 2 ^ 32
  omega

/-- A deadline on the counter is reached when the real time `next + base` is. -/
theorem due_iff (next : UInt32) (now : Nat) (hb : l.base ≤ now) (h : now < l.base + 2 ^ 32) :
    next ≤ l.getCount now ↔ next.toNat + l.base ≤ now := by
  rw [UInt32.le_iff_toNat_le, toNat_getCount l now h]; omega

/-- The counter shows `max` only once that much real time has passed. -/
theorem base_add_le {max : UInt32} {now : Nat} (h : max ≤ l.getCount now) (hm : 0 < max.toNat) :
    l.base + max.toNat ≤ now := by
  have hle : max.toNat ≤ (now - l.base) % 2 ^ 32 := by
    rw [UInt32.le_iff_toNat_le] at h
    simpa [getCount] using h
  have := Nat.mod_le (now - l.base) (2 ^ 32)
  omega

end LogTimer
end DevBoards
