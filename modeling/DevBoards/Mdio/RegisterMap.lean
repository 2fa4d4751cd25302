import DevBoards.Core.Machine
import DevBoards.Mdio.Frame

/-!
# The bus refines a register map

* `interface_refines`: over any run of `Read` and `Write`, the bit-level bus
  does what the registers behind it do (`registers`), whatever they are.
* `mdio_refines`: with plain registers behind it, it is the map that `Write`
  updates and `Read` looks up.
-/
namespace DevBoards.Mdio

inductive Call
  | read (phyaddr regaddr : BitVec 8)
  | write (phyaddr regaddr : BitVec 8) (regval : BitVec 16)
deriving DecidableEq, Repr

variable {R : Type} (a : BitVec 5) (B : Backend R)

/-- The calls, bit by bit. -/
def interface : Machine (Bus R) Call (Option (BitVec 16)) where
  step b
    | .read phyaddr regaddr =>
      let r := read (pins a B) phyaddr regaddr b
      (r.2, some r.1)
    | .write phyaddr regaddr regval => (write (pins a B) phyaddr regaddr regval b, none)

/-- The calls on the registers alone. -/
def registers : Machine R Call (Option (BitVec 16)) where
  step regs
    | .read phyaddr regaddr =>
      let r := regRead a B phyaddr regaddr regs
      (r.2, some r.1)
    | .write phyaddr regaddr regval => (regWrite a B phyaddr regaddr regval regs, none)

/-- Clause 22 registers that keep what is written. -/
def plain : Backend (BitVec 5 → BitVec 16) where
  read r regs := (regs r, regs)
  write r v regs := Function.update regs r v

/-- The abstract register map of the PHY at address `a`. -/
def registerMap : Machine (BitVec 5 → BitVec 16) Call (Option (BitVec 16)) where
  step regs
    | .read phyaddr regaddr =>
      (regs, some (if phyaddr.setWidth 5 = a then regs (regaddr.setWidth 5) else 0xffff))
    | .write phyaddr regaddr regval =>
      (if phyaddr.setWidth 5 = a then Function.update regs (regaddr.setWidth 5) regval else regs, none)

/-- The controller's pins and the PHY, before the constructor has run. -/
def fresh (out latch clk : Bool) (ones : Nat) (regs : R) : Bus R :=
  ⟨out, latch, clk, ⟨.hunt ones, regs⟩, false⟩

variable {a B}

theorem idle_construct (out latch clk : Bool) (ones : Nat) (regs : R) :
    Idle (construct (pins a B) (fresh out latch clk ones regs)) regs :=
  ⟨ones, rfl, rfl, rfl, rfl⟩

theorem Idle.regs_eq {b : Bus R} {regs : R} (h : Idle b regs) : b.phy.regs = regs := by
  obtain ⟨n, h⟩ := h
  rw [h.phy]

theorem Idle.no_clash {b : Bus R} {regs : R} (h : Idle b regs) : b.clash = false := by
  obtain ⟨n, h⟩ := h
  exact h.clash

/-- One call on the bus is one on the registers. -/
theorem interface_step {b : Bus R} {regs : R} (h : Idle b regs) (c : Call) :
    Idle ((interface a B).step b c).1 ((registers a B).step regs c).1 ∧
      ((interface a B).step b c).2 = ((registers a B).step regs c).2 := by
  cases c with
  | read phyaddr regaddr =>
    obtain ⟨hret, hidle⟩ := read_spec a B h phyaddr regaddr
    exact ⟨hidle, congrArg some hret⟩
  | write phyaddr regaddr regval => exact ⟨write_spec a B h phyaddr regaddr regval, rfl⟩

/-- **Any registers**: the bus does what they do. -/
theorem interface_refines {b : Bus R} {regs : R} (h : Idle b regs) (calls : List Call) :
    Idle ((interface a B).final b calls) ((registers a B).final regs calls) ∧
      (interface a B).outs b calls = (registers a B).outs regs calls := by
  have hsim := (interface a B).simulation (registers a B) Idle (fun _ _ => True) id id
    (fun _ _ c hidle _ => interface_step hidle c) calls b regs h
    ((interface a B).along_of_forall (fun _ _ _ => trivial) b)
  simpa using hsim

theorem registers_plain : registers a plain = registerMap a := by
  unfold registers registerMap
  congr
  funext regs c
  cases c with
  | read phyaddr regaddr =>
    simp only [regRead, plain]
    split <;> rfl
  | write phyaddr regaddr regval => rfl

/-- A clash, once recorded, stays, and is recorded at every write to a pin. -/
theorem check_clash (b : Bus R) :
    b.check.clash = false ↔ b.clash = false ∧ ¬ (b.out = true ∧ b.phy.drive.isSome = true) := by
  simp [Bus.check]

/-- **The MDIO bus** is a register map: over any run of calls on a freshly
constructed interface, `Read` returns and the registers hold what the map
says, and the two ends never drive the line at once. -/
theorem mdio_refines (a : BitVec 5) (regs : BitVec 5 → BitVec 16) (out latch clk : Bool) (ones : Nat)
    (calls : List Call) :
    let b := construct (pins a plain) (fresh out latch clk ones regs)
    (interface a plain).outs b calls = (registerMap a).outs regs calls ∧
      ((interface a plain).final b calls).phy.regs = (registerMap a).final regs calls ∧
      ((interface a plain).final b calls).clash = false := by
  obtain ⟨hidle, houts⟩ := interface_refines (idle_construct out latch clk ones regs) calls
  rw [registers_plain] at hidle houts
  exact ⟨houts, hidle.regs_eq, hidle.no_clash⟩

end DevBoards.Mdio
