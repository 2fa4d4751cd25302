import Mathlib.Algebra.GroupWithZero.Nat
import Mathlib.Logic.Function.Basic

/-!
# GPIO pins

A `GPIOPin` object names a port and a bit. The level belongs to the physical
pin: two objects with the same port and bit drive and read one level.
-/
namespace DevBoards

inductive Port | gpioA | gpioB | gpioC
deriving DecidableEq, Repr

/-- For the bits of a pin, which are written as literals. -/
instance neZeroBits : NeZero 16 := ⟨by decide⟩

structure Pin where
  port : Port
  bit : Fin 16
deriving DecidableEq, Repr

/-- The level of each pin. -/
abbrev Levels := Pin → Bool

/-- `pin = level`. -/
def Levels.drive (pins : Levels) (p : Pin) (level : Bool) : Levels := Function.update pins p level

@[simp] theorem Levels.drive_same (pins : Levels) (p : Pin) (level : Bool) :
    pins.drive p level p = level := Function.update_self ..

@[simp] theorem Levels.drive_ne (pins : Levels) {p q : Pin} (level : Bool) (h : q ≠ p) :
    pins.drive p level q = pins q := Function.update_of_ne h ..

theorem Levels.drive_apply (pins : Levels) (p q : Pin) (level : Bool) :
    pins.drive p level q = if q = p then level else pins q := Function.update_apply ..

end DevBoards
