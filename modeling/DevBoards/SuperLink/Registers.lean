import Mathlib.Data.List.Basic

/-!
# The supervisor's registers and `OnCommand`

The main MCU of fpga-stm32-ifaces reads the supervisor's registers over SPI:
three version strings and ten 16-bit sensor values.
`SupervisorSPIServer::OnCommand` answers a command byte by queueing one dummy
byte and then the bytes of the variable the register names.

The register numbers are in a header outside the repository. They are the
labels of one `switch`, so no two are equal (`RegIds`).
-/
namespace DevBoards.SuperLink

/-- The 16-bit sensor registers. -/
inductive Sensor
  | ibcVin | ibcIin | ibcTemp | ibcVout | ibcIout | ibcVsense | ibcMcuTemp | ibc3v3 | mcuTemp | v3v3
deriving DecidableEq, Repr

/-- `superregs_t` -/
inductive SuperReg
  | version | ibcVersion | ibcHwVersion
  | sensor (s : Sensor)
deriving DecidableEq, Repr

def SuperReg.all : List SuperReg :=
  [.version, .ibcVersion, .ibcHwVersion, .sensor .ibcVin, .sensor .ibcIin, .sensor .ibcTemp,
    .sensor .ibcVout, .sensor .ibcIout, .sensor .ibcVsense, .sensor .ibcMcuTemp, .sensor .ibc3v3,
    .sensor .mcuTemp, .sensor .v3v3]

theorem SuperReg.mem_all (r : SuperReg) : r ∈ all := by
  cases r with
  | sensor s => cases s <;> decide
  | _ => decide

/-- `supervisor/SupervisorSPIRegisters.h`: the number of each register. -/
structure RegIds where
  code : SuperReg → UInt8
  injective : Function.Injective code

/-- The register a command byte names. -/
def RegIds.decode (ids : RegIds) (b : UInt8) : Option SuperReg :=
  SuperReg.all.find? fun r => ids.code r == b

theorem RegIds.decode_code (ids : RegIds) (r : SuperReg) : ids.decode (ids.code r) = some r := by
  obtain ⟨r', hr'⟩ : ∃ r', ids.decode (ids.code r) = some r' :=
    Option.isSome_iff_exists.mp (List.find?_isSome.mpr ⟨r, r.mem_all, beq_self_eq_true _⟩)
  have hfind : SuperReg.all.find? (fun r' => ids.code r' == ids.code r) = some r' := hr'
  have hcode := List.find?_some hfind
  rw [hr', ids.injective (eq_of_beq hcode)]

/-- The registers numbered in order. -/
def RegIds.inOrder : RegIds where
  code r := UInt8.ofNat (SuperReg.all.idxOf r)
  injective r r' h := by
    have hlt (r : SuperReg) : SuperReg.all.idxOf r < 256 :=
      Nat.lt_trans (List.idxOf_lt_length_of_mem r.mem_all) (by decide)
    have hidx := congrArg UInt8.toNat h
    rw [UInt8.toNat_ofNat_of_lt' (hlt r), UInt8.toNat_ofNat_of_lt' (hlt r')] at hidx
    exact (List.idxOf_inj r.mem_all).mp hidx

/-- The sensor variables. -/
structure Sensors where
  vin48 : UInt16
  iin : UInt16
  ibcTemp : UInt16
  vout12 : UInt16
  iout : UInt16
  voutsense : UInt16
  ibcMcuTemp : UInt16
  ibc3v3 : UInt16
  mcutemp : UInt16
  voltage3v3 : UInt16
deriving DecidableEq

/-- The version strings, in arrays of 20 bytes. -/
structure Versions where
  version : Vector UInt8 20
  ibcSwVersion : Vector UInt8 20
  ibcHwVersion : Vector UInt8 20
deriving DecidableEq

/-- The supervisor's variables. -/
structure Mem extends Versions, Sensors
deriving DecidableEq

/-- The variable of a sensor register. -/
def Sensors.get (m : Sensors) : Sensor → UInt16
  | .ibcVin => m.vin48
  | .ibcIin => m.iin
  | .ibcTemp => m.ibcTemp
  | .ibcVout => m.vout12
  | .ibcIout => m.iout
  | .ibcVsense => m.voutsense
  | .ibcMcuTemp => m.ibcMcuTemp
  | .ibc3v3 => m.ibc3v3
  | .mcuTemp => m.mcutemp
  | .v3v3 => m.voltage3v3

/-- The two bytes of a variable, little-endian. -/
def lowByte (v : UInt16) : UInt8 := v.toUInt8

def highByte (v : UInt16) : UInt8 := (v >>> 8).toUInt8

/-- The bytes of the variable a register names. -/
def Mem.bytes (m : Mem) : SuperReg → List UInt8
  | .version => m.version.toList
  | .ibcVersion => m.ibcSwVersion.toList
  | .ibcHwVersion => m.ibcHwVersion.toList
  | .sensor s => [lowByte (m.get s), highByte (m.get s)]

/-- The length `OnCommand` passes for a register. -/
def SuperReg.size : SuperReg → Nat
  | .sensor _ => 2
  | _ => 20

/-- A step of `NonblockingWriteFifo`: queue a byte, of the dummy or of a
variable as it then is, or, at the end, enable the transmit interrupt. -/
inductive Push
  | dummy
  | byte (r : SuperReg) (i : Nat)
  | enable
deriving DecidableEq, Repr

/-- mirrors fpga-stm32-ifaces/firmware/super/main/SupervisorSPIServer.cpp:41-112 -/
def onCommand (ids : RegIds) (b : UInt8) : List Push :=
  [.dummy, .enable] ++ match ids.decode b with
    | some r => (List.range r.size).map (.byte r) ++ [.enable]
    | none => []

/-- The byte a step queues, if it queues one. -/
def Push.value (m : Mem) : Push → Option UInt8
  | .dummy => some 0
  | .byte r i => some ((m.bytes r).getD i 0)
  | .enable => none

/-- The bytes that steps queue. -/
def pushed (m : Mem) (ops : List Push) : List UInt8 := ops.filterMap (Push.value m)

theorem Mem.length_bytes (m : Mem) (r : SuperReg) : (m.bytes r).length = r.size := by
  cases r <;> simp [bytes, SuperReg.size]

@[simp] theorem pushed_nil (m : Mem) : pushed m [] = [] := rfl

@[simp] theorem pushed_dummy (m : Mem) (ops : List Push) :
    pushed m (.dummy :: ops) = 0 :: pushed m ops := rfl

@[simp] theorem pushed_byte (m : Mem) (r : SuperReg) (i : Nat) (ops : List Push) :
    pushed m (.byte r i :: ops) = (m.bytes r).getD i 0 :: pushed m ops := rfl

@[simp] theorem pushed_enable (m : Mem) (ops : List Push) :
    pushed m (.enable :: ops) = pushed m ops := rfl

theorem pushed_cons (m : Mem) (op : Push) (ops : List Push) :
    pushed m (op :: ops) = (op.value m).toList ++ pushed m ops := by
  cases op <;> rfl

@[simp] theorem pushed_append (m : Mem) (ops ops' : List Push) :
    pushed m (ops ++ ops') = pushed m ops ++ pushed m ops' := List.filterMap_append ..

/-- Queueing the bytes of a variable one by one queues the variable. -/
theorem pushed_bytes (m : Mem) (r : SuperReg) :
    pushed m ((List.range r.size).map (.byte r)) = m.bytes r := by
  have hone : Push.value m ∘ Push.byte r = some ∘ fun i => (m.bytes r).getD i 0 := rfl
  unfold pushed
  rw [List.filterMap_map, hone, List.filterMap_eq_map, ← m.length_bytes r]
  apply List.ext_getElem (by simp)
  intro i h1 h2
  simp [h2]

/-- **One dummy byte, then the variable.** -/
theorem pushed_onCommand (ids : RegIds) (m : Mem) (r : SuperReg) :
    pushed m (onCommand ids (ids.code r)) = 0 :: m.bytes r := by
  unfold onCommand
  rw [ids.decode_code]
  simp [pushed_bytes]

/-- `lo | hi << 8`, as the main MCU puts the two bytes together. -/
def word (lo hi : UInt8) : UInt16 := lo.toUInt16 ||| (hi.toUInt16 <<< 8)

theorem word_bytes (v : UInt16) : word (lowByte v) (highByte v) = v := by
  have hv : v.toNat < 65536 := v.toNat_lt
  have hlow : (lowByte v).toUInt16.toNat = v.toNat % 256 := by simp [lowByte]
  have hhigh : ((highByte v).toUInt16 <<< 8).toNat = 2 ^ 8 * (v.toNat / 256) := by
    simp [highByte, Nat.shiftRight_eq_div_pow, Nat.shiftLeft_eq]
    omega
  apply UInt16.toNat_inj.mp
  rw [word, UInt16.toNat_or, hlow, hhigh, Nat.or_comm, ← Nat.two_pow_add_eq_or_of_lt (by omega)]
  omega

end DevBoards.SuperLink
