import DevBoards.Core.Serial
import DevBoards.Mdio.Interface

/-!
# A PHY on the bus

The PHY is outside the repository: an IEEE 802.3 Clause 22 slave. It samples
MDIO at each rising edge of MDC, looks for at least 32 ones followed by 0, 1,
and takes 12 bits of header. When the address is its own it answers a read,
or skips the two turnaround bits of a write and stores 16. It drives the line
from the second turnaround bit of a read to the last data bit, and what it
drives changes just after the edges. What the registers are is a parameter
(`Backend`).

A `Bus` is the two pins of the controller wired to one such PHY, with a
pull-up on MDIO; `clash` records whether both ends have ever driven it at
once.
-/
namespace DevBoards.Mdio

open Serial (msbBits ofBits)

/-- The registers behind the bus. Reading one may change them. -/
structure Backend (R : Type) where
  read : BitVec 5 → R → BitVec 16 × R
  write : BitVec 5 → BitVec 16 → R → R

inductive Phase
  /-- Looking for a frame, after so many ones in a row. -/
  | hunt (ones : Nat)
  /-- The 0 of the start of a frame has come. -/
  | start
  /-- The opcode and the addresses, as far as they have come. -/
  | header (bits : List Bool)
  /-- The first turnaround bit of a read. -/
  | turnRead (v : BitVec 16)
  /-- The first of these is on the line. -/
  | sending (bits : List Bool)
  /-- So many turnaround bits of a write are still to come. -/
  | turnWrite (reg : BitVec 5) (left : Nat)
  /-- The bits of a write, as far as they have come. -/
  | storing (reg : BitVec 5) (bits : List Bool)
deriving DecidableEq

structure Phy (R : Type) where
  phase : Phase
  regs : R

variable {R : Type}

/-- The level the PHY drives, if it does. -/
def Phy.drive (p : Phy R) : Option Bool :=
  match p.phase with
  | .sending bits => bits.head?
  | _ => none

variable (a : BitVec 5) (B : Backend R)

/-- The PHY at address `a` has the 12 bits of a header. -/
def Phy.command (bits : List Bool) (regs : R) : Phy R :=
  let phyaddr : BitVec 5 := ofBits ((bits.drop 2).take 5)
  let regaddr : BitVec 5 := ofBits (bits.drop 7)
  if phyaddr = a then
    match bits.take 2 with
    | [true, false] => ⟨.turnRead (B.read regaddr regs).1, (B.read regaddr regs).2⟩
    | [false, true] => ⟨.turnWrite regaddr 2, regs⟩
    | _ => ⟨.hunt 0, regs⟩
  else ⟨.hunt 0, regs⟩

/-- A rising edge of MDC with `bit` on the line. -/
def Phy.edge (p : Phy R) (bit : Bool) : Phy R :=
  match p.phase with
  | .hunt ones =>
    { p with phase := if bit then .hunt (ones + 1) else if 32 ≤ ones then .start else .hunt 0 }
  | .start => { p with phase := if bit then .header [] else .hunt 0 }
  | .header bits =>
    if bits.length + 1 < 12 then { p with phase := .header (bits ++ [bit]) }
    else Phy.command a B (bits ++ [bit]) p.regs
  | .turnRead v => { p with phase := .sending (false :: msbBits v) }
  | .sending bits => { p with phase := if 1 < bits.length then .sending bits.tail else .hunt 0 }
  | .turnWrite reg left =>
    { p with phase := if 1 < left then .turnWrite reg (left - 1) else .storing reg [] }
  | .storing reg bits =>
    if bits.length + 1 < 16 then { p with phase := .storing reg (bits ++ [bit]) }
    else ⟨.hunt 0, B.write reg (ofBits (bits ++ [bit])) p.regs⟩

structure Bus (R : Type) where
  /-- `m_io` is an output. -/
  out : Bool
  /-- The level `m_io` drives as an output. -/
  latch : Bool
  clk : Bool
  phy : Phy R
  clash : Bool

/-- The level of MDIO. -/
def Bus.line (b : Bus R) : Bool := if b.out then b.latch else b.phy.drive.getD true

def Bus.check (b : Bus R) : Bus R := { b with clash := b.clash || (b.out && b.phy.drive.isSome) }

def pins : Pins (Bus R) where
  setMode mode b := Bus.check { b with out := mode == .output }
  setIo level b := Bus.check { b with latch := level }
  getIo b := (b.line, b)
  setClk level b :=
    Bus.check { b with clk := level, phy := if level && !b.clk then b.phy.edge a B b.line else b.phy }

end DevBoards.Mdio
