import Mathlib.Algebra.Group.Nat.Defs
import Mathlib.Data.Fin.VecNotation
import DevBoards.Hw.Apb
import DevBoards.Hw.Linker

/-!
# The FPGA's memory map, as the firmware and as the FPGA see it

`firmware.ld` lays the register structs out by a location counter; the FPGA
decodes by two levels of APB bridges. Outside the repository: the FMC link
delivers the low 20 bits of a byte address, and each section holds the one
object that `hwinit.cpp` puts in it (whose own alignment divides the slot).

* `memory_map_agrees`: every byte of every struct reaches its peripheral, at
  the same offset.
-/
namespace DevBoards.MemoryMap
open Linker Apb

/-- mirrors fpga-stm32-ifaces/firmware/main/bsp/hwinit.cpp:58-68 -/
inductive Struct | fpgaGpioA | fdevinfo | fmdio | fspi1 | fxadc | fethtx | fethrx
deriving DecidableEq, Repr

inductive Sec | fgpioa | fdevinfo | fmdio | fspi1 | fxadc | fethrx | fethtx
deriving DecidableEq, Repr

/-- `__attribute__((section(..)))`.
mirrors fpga-stm32-ifaces/firmware/main/bsp/hwinit.cpp:58-68 -/
def Struct.sec : Struct → Sec
  | .fpgaGpioA => .fgpioa
  | .fdevinfo => .fdevinfo
  | .fmdio => .fmdio
  | .fspi1 => .fspi1
  | .fxadc => .fxadc
  | .fethtx => .fethtx
  | .fethrx => .fethrx

/-! ## The linker script -/

/-- mirrors fpga-stm32-ifaces/firmware/main/main/firmware.ld:5 -/
def FMC_APB1 : Region := ⟨0xc0000000, 0x10000⟩

/-- mirrors fpga-stm32-ifaces/firmware/main/main/firmware.ld:6 -/
def FMC_APB2 : Region := ⟨0xc0010000, 0x10000⟩

/-- mirrors fpga-stm32-ifaces/firmware/main/main/firmware.ld:11-23 -/
def sfr_fpga_apb1 : List (Cmd Sec) :=
  [.align 1024, .keep .fgpioa, .align 1024, .keep .fdevinfo, .align 1024, .keep .fmdio,
    .align 1024, .keep .fspi1, .align 1024, .keep .fxadc]

/-- mirrors fpga-stm32-ifaces/firmware/main/main/firmware.ld:25-31 -/
def sfr_fpga_apb2 : List (Cmd Sec) := [.align 4096, .keep .fethrx, .align 4096, .keep .fethtx]

/-- The address the link gives to a struct; `size` is the size of each section's object. -/
def address (size : Sec → Nat) (v : Struct) : Option Nat :=
  (FMC_APB1.address size sfr_fpga_apb1 v.sec).or (FMC_APB2.address size sfr_fpga_apb2 v.sec)

/-! ## The FPGA -/

inductive Peripheral | gpioA | devinfo | mdio | flash | xadc | eth_rx_fifo | eth_tx_fifo
deriving DecidableEq, Repr

/-- mirrors fpga-stm32-ifaces/rtl/iface-test/iface-test.srcs/sources_1/new/top.sv:233-240 -/
def root_bridge : Bridge := ⟨0x00000000, 0x10000, 2⟩

/-- mirrors fpga-stm32-ifaces/rtl/iface-test/iface-test.srcs/sources_1/new/top.sv:259-266 -/
def apb1_bridge : Bridge := ⟨0x00000000, 0x400, 5⟩

/-- mirrors fpga-stm32-ifaces/rtl/iface-test/iface-test.srcs/sources_1/new/top.sv:274-281 -/
def apb2_bridge : Bridge := ⟨0x00000000, 0x1000, 2⟩

/-- What is connected to each port of `apb1`.
mirrors fpga-stm32-ifaces/rtl/iface-test/iface-test.srcs/sources_1/new/top.sv:290-434 -/
def apb1 : Fin 5 → Peripheral := ![.gpioA, .devinfo, .mdio, .flash, .xadc]

/-- mirrors fpga-stm32-ifaces/rtl/iface-test/iface-test.srcs/sources_1/new/top.sv:436-461 -/
def apb2 : Fin 2 → Peripheral := ![.eth_rx_fifo, .eth_tx_fifo]

/-- `rootAPB[i]`: the second-level bridge on each port of the root bridge. -/
def rootAPB (i : Fin 2) (addr : Nat) : List (Peripheral × Nat) :=
  match i with
  | 0 => (apb1_bridge.route addr).map fun p => (apb1 p.1, p.2)
  | 1 => (apb2_bridge.route addr).map fun p => (apb2 p.1, p.2)

/-- The low 20 bits, all that the FMC link delivers. -/
def fmc_apb (addr : Nat) : Nat := addr % 2 ^ 20

/-- Every peripheral selected by an address, with the offset it sees. -/
def decode (addr : Nat) : List (Peripheral × Nat) :=
  (root_bridge.route (fmc_apb addr)).flatMap fun p => rootAPB p.1 p.2

/-! ## Agreement -/

/-- The peripheral a struct's registers belong to. -/
def Struct.peripheral : Struct → Peripheral
  | .fpgaGpioA => .gpioA
  | .fdevinfo => .devinfo
  | .fmdio => .mdio
  | .fspi1 => .flash
  | .fxadc => .xadc
  | .fethtx => .eth_tx_fifo
  | .fethrx => .eth_rx_fifo

/-- The most bytes a section may take. -/
def Sec.limit : Sec → Nat
  | .fethrx | .fethtx => 4096
  | _ => 1024

def Fits (size : Sec → Nat) : Prop := ∀ s, 0 < size s ∧ size s ≤ s.limit

def secs1 : List Sec := [.fgpioa, .fdevinfo, .fmdio, .fspi1, .fxadc]

def secs2 : List Sec := [.fethrx, .fethtx]

theorem limit_of_mem1 {s : Sec} (h : s ∈ secs1) : s.limit = 1024 := by revert s; decide

theorem limit_of_mem2 {s : Sec} (h : s ∈ secs2) : s.limit = 4096 := by revert s; decide

theorem address_apb1 {size : Sec → Nat} (h : Fits size) {v : Struct} (hv : v.sec ∈ secs1) :
    address size v = some (0xc0000000 + secs1.idxOf v.sec * 1024) := by
  have hsize : ∀ s ∈ secs1, 0 < size s ∧ size s ≤ 1024 := fun s hs => limit_of_mem1 hs ▸ h s
  have hslot : FMC_APB1.address size (slots 1024 secs1) v.sec = _ :=
    FMC_APB1.address_slots size (by decide) hsize (by decide) (by decide) hv
  exact congrArg (Option.or · _) hslot

theorem address_apb2 {size : Sec → Nat} (h : Fits size) {v : Struct} (hv : v.sec ∈ secs2) :
    address size v = some (0xc0010000 + secs2.idxOf v.sec * 4096) := by
  have hsize : ∀ s ∈ secs2, 0 < size s ∧ size s ≤ 4096 := fun s hs => limit_of_mem2 hs ▸ h s
  have hslot : FMC_APB2.address size (slots 4096 secs2) v.sec = _ :=
    FMC_APB2.address_slots size (by decide) hsize (by decide) (by decide) hv
  have hnone : FMC_APB1.address size (slots 1024 secs1) v.sec = none :=
    FMC_APB1.address_not_mem size (by revert hv; cases v <;> decide)
  show (FMC_APB1.address size (slots 1024 secs1) v.sec).or _ = _
  rw [hnone]
  exact hslot

/-- The root bridge hands each 64 kB segment to its own bridge. -/
theorem decode_root (i : Fin 2) {off : Nat} (h : off < 0x10000) :
    decode (0xc0000000 + i * 0x10000 + off) = rootAPB i off := by
  have hi := i.isLt
  have hbus : fmc_apb (0xc0000000 + i * 0x10000 + off) = 0 + i * 0x10000 + off := by
    unfold fmc_apb
    omega
  have hroute : root_bridge.route (0 + i * 0x10000 + off) = [(i, off)] :=
    root_bridge.route_slot (Nat.dvd_zero _) i h
  unfold decode
  rw [hbus, hroute]
  exact List.append_nil _

theorem decode_apb1 (i : Fin 5) {off : Nat} (h : off < 1024) :
    decode (0xc0000000 + i * 1024 + off) = [(apb1 i, off)] := by
  have hi := i.isLt
  have hroot : decode (0xc0000000 + 0 * 0x10000 + (i * 1024 + off)) = rootAPB 0 (i * 1024 + off) :=
    decode_root 0 (by omega)
  have hroute : apb1_bridge.route (0 + i * 1024 + off) = [(i, off)] :=
    apb1_bridge.route_slot (Nat.dvd_zero _) i h
  rw [Nat.zero_mul, Nat.add_zero, ← Nat.add_assoc] at hroot
  rw [Nat.zero_add] at hroute
  rw [hroot]
  exact congrArg (List.map _) hroute

theorem decode_apb2 (i : Fin 2) {off : Nat} (h : off < 4096) :
    decode (0xc0010000 + i * 4096 + off) = [(apb2 i, off)] := by
  have hi := i.isLt
  have hroot : decode (0xc0000000 + 1 * 0x10000 + (i * 4096 + off)) = rootAPB 1 (i * 4096 + off) :=
    decode_root 1 (by omega)
  have hroute : apb2_bridge.route (0 + i * 4096 + off) = [(i, off)] :=
    apb2_bridge.route_slot (Nat.dvd_zero _) i h
  rw [Nat.one_mul, ← Nat.add_assoc] at hroot
  rw [Nat.zero_add] at hroute
  rw [hroot]
  exact congrArg (List.map _) hroute

/-- A struct's section is in the slot of the port its peripheral is on. -/
theorem slot_cases (v : Struct) :
    (v.sec ∈ secs1 ∧ ∃ i : Fin 5, secs1.idxOf v.sec = i ∧ apb1 i = v.peripheral) ∨
      (v.sec ∈ secs2 ∧ ∃ i : Fin 2, secs2.idxOf v.sec = i ∧ apb2 i = v.peripheral) := by
  cases v <;> decide

/-- **The memory maps agree.** Whatever the struct sizes, the link places every
struct, and the FPGA routes the address of every byte of it to exactly one
peripheral, the struct's own, at the byte's offset. -/
theorem memory_map_agrees (size : Sec → Nat) (hsize : Fits size) (v : Struct) (off : Nat)
    (hoff : off < size v.sec) :
    ∃ a, address size v = some a ∧ decode (a + off) = [(v.peripheral, off)] := by
  have hlimit := (hsize v.sec).2
  rcases slot_cases v with ⟨hv, i, hi, hp⟩ | ⟨hv, i, hi, hp⟩
  · rw [limit_of_mem1 hv] at hlimit
    refine ⟨_, address_apb1 hsize hv, ?_⟩
    rw [hi, decode_apb1 i (by omega), hp]
  · rw [limit_of_mem2 hv] at hlimit
    refine ⟨_, address_apb2 hsize hv, ?_⟩
    rw [hi, decode_apb2 i (by omega), hp]

/-- The last byte of every struct, all of them of the greatest size. -/
theorem memory_map_agrees_full : ∃ a, address Sec.limit .fethtx = some a ∧
    decode (a + 4095) = [(.eth_tx_fifo, 4095)] :=
  memory_map_agrees Sec.limit (fun s => ⟨by cases s <;> decide, Nat.le_refl _⟩) .fethtx 4095
    (by decide)

end DevBoards.MemoryMap
