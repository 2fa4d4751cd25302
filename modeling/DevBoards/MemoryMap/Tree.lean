import Mathlib.Algebra.Group.Nat.Defs
import Mathlib.Data.Fin.VecNotation
import DevBoards.Hw.Apb

/-!
# The register tree of kup-lulz

Three segments below a root bridge, each with a bridge of its own
(kup-lulz/rtl/top). The addresses in the comments there are what software goes
by; the high bits, 0xc010, are not sent over SCCB.

The third segment is moved to the clock of the switch fabric by an `APB_CDC`,
which is outside the repository; `top.sv` leaves that clock open. A bus that
the tree hands out may also end in an interface array at an element that no
module is instantiated on.

* `mem_decode_iff`: what an address reaches, with that clock or without.
* `decode_exact`: in the FPGA as it is, every address that arrives reaches the
  one peripheral whose window it is in, but for two windows, or none.
-/
namespace DevBoards.MemoryMap.KupLulz
open Apb

inductive Peripheral
  | devinfo | gpioA | crypt25519 | smpm_qpll | sfp_qpll
  | smpm_serdes (lane : Fin 3)
  | qsfp0_qpll
  | qsfp0_serdes (lane : Fin 4)
  | flash | mgmt0_rx_fifo | mgmt0_tx_fifo | lc0_ctlregs
deriving DecidableEq, Repr

/-! ## The FPGA -/

/-- mirrors kup-lulz/rtl/top/top.sv:310-323 -/
def root_bridge : Bridge := ⟨0x00000000, 0x10000, 3⟩

/-- mirrors kup-lulz/rtl/top/Peripherals_APB1.sv:66-77 -/
def apb1_bridge : Bridge := ⟨0x00000000, 0x400, 14⟩

/-- mirrors kup-lulz/rtl/top/Peripherals_APB2.sv:53-64 -/
def apb2_bridge : Bridge := ⟨0x00000000, 0x1000, 4⟩

/-- mirrors kup-lulz/rtl/top/Peripherals_APB3.sv:67-78 -/
def apb3_bridge : Bridge := ⟨0x00000000, 0x400, 4⟩

/-- mirrors kup-lulz/rtl/top/Peripherals_APB1.sv:79-197 -/
def apb1 : Fin 14 → Option Peripheral :=
  ![some .devinfo, some .gpioA, some .crypt25519, some .smpm_qpll, some .sfp_qpll,
    some (.smpm_serdes 0), some (.smpm_serdes 1), some (.smpm_serdes 2), some .qsfp0_qpll,
    some (.qsfp0_serdes 0), some (.qsfp0_serdes 1), some (.qsfp0_serdes 2),
    some (.qsfp0_serdes 3), some .flash]

/-- Two ports are left open.
mirrors kup-lulz/rtl/top/Peripherals_APB2.sv:66-91 -/
def apb2 : Fin 4 → Option Peripheral := ![some .mgmt0_rx_fifo, some .mgmt0_tx_fifo, none, none]

/-- Three ports are left open.
mirrors kup-lulz/rtl/top/Peripherals_APB3.sv:80-89 -/
def apb3 : Fin 4 → Option Peripheral := ![some .lc0_ctlregs, none, none, none]

/-- Something is on the bus: the quads instantiate the lanes 0 to 2 of SMPM and
1 to 3 of QSFP0, and nothing else is left out.
mirrors kup-lulz/rtl/switch/SMPM_Quad.sv:160,183 and
kup-lulz/rtl/switch/QSFP0_Quad.sv:179,188 -/
def Peripheral.attached : Peripheral → Bool
  | .smpm_serdes lane => lane.val ≤ 2
  | .qsfp0_serdes lane => 1 ≤ lane.val && lane.val ≤ 3
  | _ => true

/-- What is reached through a bridge with these peripherals. -/
def below (b : Bridge) (port : Fin b.ports → Option Peripheral) (addr : Nat) :
    List (Peripheral × Nat) :=
  (b.route addr).filterMap fun p =>
    ((port p.1).filter Peripheral.attached).map fun q => (q, p.2)

/-- `APB_CDC`, with a `downstream_pclk` that runs or does not: an access crosses
over on edges of that clock, so without it none does. -/
structure Cdc where
  cross (downstream_pclk : Bool) (addr : Nat) : Option Nat
  cross_true : ∀ addr, cross true addr = some addr
  cross_false : ∀ addr, cross false addr = none

def Cdc.gate : Cdc := ⟨fun clk addr => if clk then some addr else none, fun _ => rfl, fun _ => rfl⟩

/-- mirrors kup-lulz/rtl/top/Peripherals_APB3.sv:53-78 -/
def peripherals_APB3 (cdc : Cdc) (clk_fabric : Bool) (addr : Nat) : List (Peripheral × Nat) :=
  (cdc.cross clk_fabric addr).toList.flatMap (below apb3_bridge apb3)

/-- mirrors kup-lulz/rtl/top/top.sv:330-383 -/
def apb_root (cdc : Cdc) (clk_fabric : Bool) (i : Fin 3) (addr : Nat) : List (Peripheral × Nat) :=
  match i with
  | 0 => below apb1_bridge apb1 addr
  | 1 => below apb2_bridge apb2 addr
  | 2 => peripherals_APB3 cdc clk_fabric addr

/-- With the clock of the third segment connected or not. -/
def decode (cdc : Cdc) (clk_fabric : Bool) (addr : Nat) : List (Peripheral × Nat) :=
  (root_bridge.route addr).flatMap fun p => apb_root cdc clk_fabric p.1 p.2

/-- As it is: `apb3` is instantiated without its `clk_fabric`.
mirrors kup-lulz/rtl/top/top.sv:378-384 -/
def top (cdc : Cdc) (addr : Nat) : List (Peripheral × Nat) := decode cdc false addr

/-! ## The windows -/

/-- Where the comments put each peripheral. -/
def Peripheral.address : Peripheral → Nat
  | .devinfo => 0xc0100000
  | .gpioA => 0xc0100400
  | .crypt25519 => 0xc0100800
  | .smpm_qpll => 0xc0100c00
  | .sfp_qpll => 0xc0101000
  | .smpm_serdes lane => [0xc0101400, 0xc0101800, 0xc0101c00].getD lane 0
  | .qsfp0_qpll => 0xc0102000
  | .qsfp0_serdes lane => [0xc0102400, 0xc0102800, 0xc0102c00, 0xc0103000].getD lane 0
  | .flash => 0xc0103400
  | .mgmt0_rx_fifo => 0xc0110000
  | .mgmt0_tx_fifo => 0xc0111000
  | .lc0_ctlregs => 0xc0120000

/-- "Large (4 kB)" on APB2, "small (1 kB)" elsewhere. -/
def Peripheral.size : Peripheral → Nat
  | .mgmt0_rx_fifo | .mgmt0_tx_fifo => 4096
  | _ => 1024

/-! ## Decoding -/

variable {b : Bridge} {port : Fin b.ports → Option Peripheral} {addr off : Nat} {p : Peripheral}
  {cdc : Cdc} {clk_fabric : Bool}

theorem mem_below (hbase : b.block ∣ b.base) :
    (p, off) ∈ below b port addr ↔
      p.attached = true ∧ ∃ i, port i = some p ∧ addr = b.base + i * b.block + off ∧ off < b.block := by
  unfold below
  constructor
  · intro hmem
    obtain ⟨⟨i, o⟩, hi, hp⟩ := List.mem_filterMap.mp hmem
    obtain ⟨q, hq, heq⟩ := Option.map_eq_some_iff.mp hp
    obtain ⟨hport, hattached⟩ := Option.filter_eq_some_iff.mp hq
    cases heq
    exact ⟨hattached, i, hport, (b.mem_route hbase).mp hi⟩
  · rintro ⟨hattached, i, hi, haddr⟩
    refine List.mem_filterMap.mpr ⟨(i, off), (b.mem_route hbase).mpr haddr, ?_⟩
    rw [Option.filter_eq_some_iff.mpr ⟨hi, hattached⟩]
    rfl

theorem length_below (hbase : b.block ∣ b.base) (addr : Nat) :
    (below b port addr).length ≤ 1 :=
  Nat.le_trans (List.length_filterMap_le ..) (b.length_route hbase addr)

/-- The third segment is there if its clock is. -/
theorem mem_peripherals_APB3 : (p, off) ∈ peripherals_APB3 cdc clk_fabric addr ↔
    clk_fabric = true ∧ (p, off) ∈ below apb3_bridge apb3 addr := by
  unfold peripherals_APB3
  cases clk_fabric with
  | true => rw [cdc.cross_true, Option.toList_some, List.flatMap_singleton, eq_self, true_and]
  | false =>
    rw [cdc.cross_false]
    exact iff_of_false List.not_mem_nil fun h => Bool.false_ne_true h.1

theorem length_apb_root (i : Fin 3) (addr : Nat) : (apb_root cdc clk_fabric i addr).length ≤ 1 := by
  match i with
  | 0 => exact length_below (Nat.dvd_zero _) addr
  | 1 => exact length_below (Nat.dvd_zero _) addr
  | 2 =>
    show (peripherals_APB3 cdc clk_fabric addr).length ≤ 1
    unfold peripherals_APB3
    cases cdc.cross clk_fabric addr with
    | none => exact Nat.zero_le 1
    | some o =>
      rw [Option.toList_some, List.flatMap_singleton]
      exact length_below (Nat.dvd_zero _) o

/-- The bridge's blocks are the windows of its peripherals, from `segment` on. -/
def Agrees (b : Bridge) (port : Fin b.ports → Option Peripheral) (segment : Nat) : Prop :=
  ∀ i p, port i = some p → p.address = segment + i.val * b.block ∧ p.size = b.block

theorem agrees_of_all {segment : Nat} (h : ∀ i, (port i).all fun p =>
    decide (p.address = segment + i.val * b.block ∧ p.size = b.block)) : Agrees b port segment :=
  fun i p hp => of_decide_eq_true (Option.all_eq_true _ _ |>.mp (h i) p hp)

theorem apb1_agrees : Agrees apb1_bridge apb1 0xc0100000 := agrees_of_all (by decide)

theorem apb2_agrees : Agrees apb2_bridge apb2 0xc0110000 := agrees_of_all (by decide)

theorem apb3_agrees : Agrees apb3_bridge apb3 0xc0120000 := agrees_of_all (by decide)

/-- Every peripheral is on some port; those of the third segment are known. -/
theorem exists_port (p : Peripheral) :
    p ≠ .lc0_ctlregs ∧ ((∃ i, apb1 i = some p) ∨ ∃ i, apb2 i = some p) ∨
      p = .lc0_ctlregs ∧ ∃ i, apb3 i = some p := by
  cases p with
  | smpm_serdes lane => revert lane; decide
  | qsfp0_serdes lane => revert lane; decide
  | _ => decide

theorem other_segment (h : (∃ i, apb1 i = some p) ∨ ∃ i, apb2 i = some p) : p ≠ .lc0_ctlregs := by
  rintro rfl
  revert h
  decide

/-- One segment. -/
theorem mem_segment {segment : Nat} (h : Agrees b port segment) (hbase : b.base = 0) :
    (p, off) ∈ below b port addr ↔ p.attached = true ∧
      (∃ i, port i = some p) ∧ segment + addr = p.address + off ∧ off < p.size := by
  rw [mem_below (hbase ▸ Nat.dvd_zero _), hbase]
  refine and_congr_right fun _ => ⟨?_, ?_⟩
  · rintro ⟨i, hi, rfl, hoff⟩
    obtain ⟨haddress, hsize⟩ := h i p hi
    exact ⟨⟨i, hi⟩, by omega, by omega⟩
  · rintro ⟨⟨i, hi⟩, haddr, hoff⟩
    obtain ⟨haddress, hsize⟩ := h i p hi
    exact ⟨i, hi, by omega, by omega⟩

/-- The windows of a bridge are in its 64 kB. -/
theorem segment_lt {segment : Nat} (h : Agrees b port segment) (hfits : b.ports * b.block ≤ 0x10000)
    {i : Fin b.ports} (hi : port i = some p) (hoff : off < p.size) :
    segment ≤ p.address + off ∧ p.address + off < segment + 0x10000 := by
  obtain ⟨haddress, hsize⟩ := h i p hi
  have hports := Nat.mul_le_mul_right b.block (Nat.succ_le_of_lt i.isLt)
  rw [Nat.succ_eq_add_one, Nat.add_one_mul] at hports
  omega

theorem mem_decode : (p, off) ∈ decode cdc clk_fabric addr ↔ ∃ (i : Fin 3) (o : Nat),
    (addr = i * 0x10000 + o ∧ o < 0x10000) ∧ (p, off) ∈ apb_root cdc clk_fabric i o := by
  have hroute (i : Fin 3) (o : Nat) :
      (i, o) ∈ root_bridge.route addr ↔ addr = 0 + i * 0x10000 + o ∧ o < 0x10000 :=
    root_bridge.mem_route (Nat.dvd_zero _)
  unfold decode
  rw [List.mem_flatMap]
  constructor
  · rintro ⟨⟨i, o⟩, hi, hmem⟩
    have haddr := (hroute i o).mp hi
    rw [Nat.zero_add] at haddr
    exact ⟨i, o, haddr, hmem⟩
  · rintro ⟨i, o, hi, hmem⟩
    rw [← Nat.zero_add (i.val * 0x10000)] at hi
    exact ⟨(i, o), (hroute i o).mpr hi, hmem⟩

theorem length_decode (addr : Nat) : (decode cdc clk_fabric addr).length ≤ 1 := by
  have hone := root_bridge.length_route (Nat.dvd_zero _) addr
  unfold decode
  match root_bridge.route addr, hone with
  | [], _ => exact Nat.zero_le 1
  | [q], _ =>
    rw [List.flatMap_singleton]
    exact length_apb_root q.1 q.2

/-- An address reaches what is attached at the window it is in, in the third
segment only with a clock. -/
theorem mem_decode_iff : (p, off) ∈ decode cdc clk_fabric addr ↔
    p.attached = true ∧ (p = .lc0_ctlregs → clk_fabric = true) ∧
      0xc0100000 + addr = p.address + off ∧ off < p.size := by
  have h1 {p : Peripheral} {off o : Nat} : (p, off) ∈ apb_root cdc clk_fabric 0 o ↔ _ :=
    mem_segment apb1_agrees rfl
  have h2 {p : Peripheral} {off o : Nat} : (p, off) ∈ apb_root cdc clk_fabric 1 o ↔ _ :=
    mem_segment apb2_agrees rfl
  have h3 {p : Peripheral} {off o : Nat} : (p, off) ∈ apb_root cdc clk_fabric 2 o ↔ _ :=
    mem_peripherals_APB3.trans (and_congr_right fun _ => mem_segment apb3_agrees rfl)
  refine mem_decode.trans ⟨?_, ?_⟩
  · rintro ⟨i, o, ⟨haddr, ho⟩, hmem⟩
    rcases i with ⟨_ | _ | _ | i, hi⟩
    · replace haddr : addr = 0 * 0x10000 + o := haddr
      obtain ⟨hattached, hport, hwindow, hoff⟩ := h1.mp hmem
      have hother := other_segment (.inl hport)
      exact ⟨hattached, fun hp => absurd hp hother, by omega, hoff⟩
    · replace haddr : addr = 1 * 0x10000 + o := haddr
      obtain ⟨hattached, hport, hwindow, hoff⟩ := h2.mp hmem
      have hother := other_segment (.inr hport)
      exact ⟨hattached, fun hp => absurd hp hother, by omega, hoff⟩
    · replace haddr : addr = 2 * 0x10000 + o := haddr
      obtain ⟨hclk, hattached, -, hwindow, hoff⟩ := h3.mp hmem
      exact ⟨hattached, fun _ => hclk, by omega, hoff⟩
    · omega
  · rintro ⟨hattached, hclk, haddr, hoff⟩
    rcases exists_port p with ⟨-, ⟨i, hi⟩ | ⟨i, hi⟩⟩ | ⟨hp, i, hi⟩
    · have := segment_lt apb1_agrees (by decide) hi hoff
      exact ⟨0, addr, ⟨by omega, by omega⟩, h1.mpr ⟨hattached, ⟨i, hi⟩, by omega, hoff⟩⟩
    · have := segment_lt apb2_agrees (by decide) hi hoff
      exact ⟨1, addr - 0x10000, ⟨by omega, by omega⟩,
        h2.mpr ⟨hattached, ⟨i, hi⟩, by omega, hoff⟩⟩
    · have := segment_lt apb3_agrees (by decide) hi hoff
      exact ⟨2, addr - 0x20000, ⟨by omega, by omega⟩,
        h3.mpr ⟨hclk hp, hattached, ⟨i, hi⟩, by omega, hoff⟩⟩

theorem attached_iff : p.attached = true ↔ p ≠ .qsfp0_serdes 0 := by
  cases p with
  | smpm_serdes lane => revert lane; decide
  | qsfp0_serdes lane => revert lane; decide
  | _ => decide

/-- **The tree decodes exactly.** Any address that arrives reaches one peripheral
at most: the one whose window it is in, by the addresses in the comments, at its
offset there. Outside the windows it reaches none, nor in two of them: that of
the line card's registers, whose segment has no clock, and that of the first
lane of QSFP0, which does not exist. -/
theorem decode_exact (cdc : Cdc) (addr : Nat) :
    (top cdc addr).length ≤ 1 ∧ ∀ p off, (p, off) ∈ top cdc addr ↔
      p ≠ .lc0_ctlregs ∧ p ≠ .qsfp0_serdes 0 ∧
        0xc0100000 + addr = p.address + off ∧ off < p.size := by
  refine ⟨length_decode addr, fun p off => mem_decode_iff.trans ?_⟩
  rw [attached_iff]
  constructor
  · rintro ⟨hattached, hclk, hwindow⟩
    exact ⟨fun hp => Bool.false_ne_true (hclk hp), hattached, hwindow⟩
  · rintro ⟨hp, hattached, hwindow⟩
    exact ⟨hattached, fun h => absurd h hp, hwindow⟩

example : top .gate 0x2800 = [(.qsfp0_serdes 1, 0)] ∧ top .gate 0x2400 = [] ∧
    top .gate 0x20000 = [] ∧ decode .gate true 0x20000 = [(.lc0_ctlregs, 0)] := by
  decide

end DevBoards.MemoryMap.KupLulz
