import Mathlib.Logic.Function.Basic
import DevBoards.Converter.Identity
import DevBoards.Hw.Gpio
import DevBoards.Mdio.Mmd

/-!
# The firmware of the media converter

`main` of baset1-media-converter/firmware/main.cpp: it powers the PHYs up,
releases their resets, sets both up over MDIO and then polls their link state
for ever. The MDIO accesses go bit by bit to two PHYs at the addresses
`strap`; the pins, the sleeps, the accesses and the log are kept in `trace`.

The clocks, the UART and the indentation of the log are left out, and so are
the pointers that `InitLEDs` stores, which nothing reads.
-/
namespace DevBoards.Converter
open Mdio

/-- The single-pair PHY and the base-T PHY, each behind an interface of its own. -/
inductive Iface | spe | baset
deriving DecidableEq, Repr

inductive Severity | normal | warning | error
deriving DecidableEq, Repr

structure Entry where
  severity : Severity
  format : String
  args : List Arg
deriving DecidableEq, Repr

def Line.entry (l : Line) : Entry :=
  ⟨if l.warning then .warning else .normal, l.format, l.args⟩

inductive Op
  /-- `pin = level` -/
  | drive (pin : Pin) (level : Bool)
  /-- `pgood_in` is read -/
  | pgood (level : Bool)
  /-- `g_logTimer->Sleep(ticks)` -/
  | sleep (ticks : Nat)
  /-- the constructor of `BitbangedMDIOInterface` -/
  | construct (i : Iface)
  | access (i : Iface) (c : MmdCall)
  | log (e : Entry)

/-! mirrors baset1-media-converter/firmware/main.cpp:73-74,93,227-228,238-241 -/

def baset_rst_n : Pin := ⟨.gpioA, 5⟩

def spe_rst_n : Pin := ⟨.gpioA, 8⟩

def pwren_1v0 : Pin := ⟨.gpioA, 4⟩

def pwren_1v2 : Pin := ⟨.gpioB, 7⟩

def gpio_led : List Pin := [⟨.gpioA, 15⟩, ⟨.gpioB, 3⟩, ⟨.gpioB, 4⟩, ⟨.gpioB, 5⟩]

/-- mirrors baset1-media-converter/firmware/main.cpp:50-51 -/
def PHY_ADDR_SPE : BitVec 8 := 0x00

def PHY_ADDR_BASET : BitVec 8 := 0x00

structure Board where
  levels : Levels
  bus : Iface → Bus MmdRegs
  speedIsGig : Bool
  trace : List Op

/-- What `DetectHardware` reads. -/
structure Hardware where
  IDCODE : BitVec 32
  F_ID : BitVec 16
  uid : UId

namespace Board

variable (strap : Iface → BitVec 5)

def emit (op : Op) (b : Board) : Board := { b with trace := b.trace ++ [op] }

def drive (pin : Pin) (level : Bool) (b : Board) : Board :=
  { b with levels := b.levels.drive pin level, trace := b.trace ++ [.drive pin level] }

def sleep (ticks : Nat) (b : Board) : Board := b.emit (.sleep ticks)

def log (e : Entry) (b : Board) : Board := b.emit (.log e)

def print (format : String) (args : List Arg) (b : Board) : Board := b.log ⟨.normal, format, args⟩

/-- `static BitbangedMDIOInterface iface(mdc, mdio)` -/
def construct (i : Iface) (b : Board) : Board :=
  { b with bus := Function.update b.bus i (Mdio.construct (pins (strap i) annex22D) (b.bus i)),
           trace := b.trace ++ [.construct i] }

/-- A call on one interface; 0 for one that returns nothing. -/
def access (i : Iface) (c : MmdCall) (b : Board) : BitVec 16 × Board :=
  let r := (mmdInterface (strap i)).step (b.bus i) c
  (r.2.getD 0, { b with bus := Function.update b.bus i r.1, trace := b.trace ++ [.access i c] })

/-- The lines logged so far. -/
def entries (b : Board) : List Entry :=
  b.trace.filterMap fun
    | .log e => some e
    | _ => none

end Board

/-! ## The PHY identifier -/

/-- mirrors baset1-media-converter/firmware/main.cpp:322,379 -/
def oui (id1 id2 : BitVec 16) : BitVec 32 := (id2.setWidth 32 >>> 10) ||| (id1.setWidth 32 <<< 6)

/-- mirrors baset1-media-converter/firmware/main.cpp:331,388 -/
def model (id2 : BitVec 16) : BitVec 16 := (id2 >>> 4) &&& 0x3f

/-- mirrors baset1-media-converter/firmware/main.cpp:332,389 -/
def stepping (id2 : BitVec 16) : BitVec 16 := id2 &&& 0xf

def hex {w : Nat} (v : BitVec w) : Arg := .int v.toNat

/-! ## Initialisation -/

variable (strap : Iface → BitVec 5)

/-- mirrors baset1-media-converter/firmware/main.cpp:223-234 -/
def initPower (b : Board) : Board :=
  ((b.print "Turning on 1.0 and 1.2V power rails\n" []).drive pwren_1v0 true).drive pwren_1v2 true

/-- mirrors baset1-media-converter/firmware/main.cpp:236-251 -/
def initLEDs (b : Board) : Board := gpio_led.foldl (fun b pin => b.drive pin false) b

/-- The interface is built and the identifier read.
mirrors baset1-media-converter/firmware/main.cpp:316-321,373-378 -/
def identify (i : Iface) (phyaddr : BitVec 8) (b : Board) : BitVec 16 × BitVec 16 × Board :=
  let id1 := (b.construct strap i).access strap i (.read phyaddr 0x02)
  let id2 := id1.2.access strap i (.read phyaddr 0x03)
  (id1.1, id2.1, id2.2)

/-- The SPE PHY is a DP83TC814.
mirrors baset1-media-converter/firmware/main.cpp:335-351 -/
def initDP83TC814 (id2 : BitVec 16) (b : Board) : Board :=
  let b := b.print "Detected DP83TC814 stepping %d (100base-T1)\n" [hex (stepping id2)]
  let b := b.print "Turning off 1.0V power rail as it's not needed for this PHY\n" []
  let b := { b.drive pwren_1v0 false with speedIsGig := false }
  let b := (b.access strap .spe (.writeMMD PHY_ADDR_SPE 0x1f 0x451 0x9)).2
  let pmactrl2 := b.access strap .spe (.readMMD PHY_ADDR_SPE 0x1 0x834)
  if pmactrl2.1 &&& 0x4000 != 0 then pmactrl2.2.print "PHY is strapped to master mode\n" []
  else pmactrl2.2.print "PHY is strapped to slave mode\n" []

/-- From the check of the vendor. -/
def setupSPEPHY (id1 id2 : BitVec 16) (b : Board) : Board × Bool :=
  if oui id1 id2 ≠ 0x80028 then
    (b.log ⟨.error, "Invalid PHY vendor OUI: %06x\n", [hex (oui id1 id2)]⟩, false)
  else if model id2 = 0x26 then (initDP83TC814 strap id2 b, true)
  else if model id2 = 0x28 then
    let b := b.print "Detected DP83TG720S stepping %d (1000base-T1)\n" [hex (stepping id2)]
    ({ b with speedIsGig := true }, true)
  else (b.log ⟨.warning, "Unknown TI PHY %02x stepping %d\n", [hex (model id2)]⟩, true)

/-- False if it never returns.
mirrors baset1-media-converter/firmware/main.cpp:307-362 -/
def initSPEPHY (b : Board) : Board × Bool :=
  let id := identify strap .spe PHY_ADDR_SPE (b.print "Initializing SPE PHY\n" [])
  setupSPEPHY strap id.1 id.2.1 id.2.2

/-- mirrors baset1-media-converter/firmware/main.cpp:395-408 -/
def advertise100 (b : Board) : Board :=
  let b := b.print "Advertising only 100baseTX mode\n" []
  let b := (b.access strap .baset (.write PHY_ADDR_BASET 0x9 0x0000)).2
  let b := (b.access strap .baset (.write PHY_ADDR_BASET 0x4 0x0101)).2
  (b.access strap .baset (.write PHY_ADDR_BASET 0x0 0x1300)).2

/-- From the check of the vendor. -/
def setupBaseTPHY (id1 id2 : BitVec 16) (b : Board) : Board × Bool :=
  if oui id1 id2 ≠ 0x885 then
    (b.log ⟨.error, "Invalid PHY vendor OUI: %06x\n", [hex (oui id1 id2)]⟩, false)
  else
    let b := if model id2 = 0x22 then
        b.print "Detected KSZ9031RNX stepping %d \n" [hex (stepping id2)]
      else b.log ⟨.warning, "Unknown Kendin PHY %02x stepping %d\n", [hex (stepping id2)]⟩
    (if !b.speedIsGig then advertise100 strap b else b, true)

/-- False if it never returns.
mirrors baset1-media-converter/firmware/main.cpp:364-415 -/
def initBaseTPHY (b : Board) : Board × Bool :=
  let id := identify strap .baset PHY_ADDR_BASET (b.print "Initializing BaseT PHY\n" [])
  setupBaseTPHY strap id.1 id.2.1 id.2.2

/-! ## main -/

/-- `while(!pgood_in) {}` on these samples; false if it is still waiting. -/
def waitPgood : List Bool → Board → Board × Bool
  | [], b => (b, false)
  | level :: samples, b =>
    let b := b.emit (.pgood level)
    if level then (b, true) else waitPgood samples b

/-- Where `main` has got to. -/
inductive Status
  /-- `pgood_in` has not been high yet -/
  | waiting
  /-- in the empty loop after an invalid OUI -/
  | hung (i : Iface)
  | polling
deriving DecidableEq, Repr

/-- Up to the wait for `pgood_in`.
mirrors baset1-media-converter/firmware/main.cpp:70-88 -/
def powerUp (hw : Hardware) (b : Board) : Board :=
  let b := ((detectHardware hw.IDCODE hw.F_ID hw.uid).1.map Line.entry).foldl (fun b e => b.log e) b
  let b := (b.drive baset_rst_n false).drive spe_rst_n false
  initLEDs (initPower b)

/-- mirrors baset1-media-converter/firmware/main.cpp:96-103 -/
def releaseReset (b : Board) : Board :=
  let b := (b.sleep 650).print "Power good, releasing PHY reset\n" []
  ((b.drive baset_rst_n true).drive spe_rst_n true).sleep 10

/-- mirrors baset1-media-converter/firmware/main.cpp:105-108 -/
def initPHYs (b : Board) : Board × Status :=
  let spe := initSPEPHY strap b
  if !spe.2 then (spe.1, .hung .spe)
  else
    let baset := initBaseTPHY strap spe.1
    if !baset.2 then (baset.1, .hung .baset) else (baset.1, .polling)

/-- Up to the polling loop, on these samples of `pgood_in`.
mirrors baset1-media-converter/firmware/main.cpp:70-108 -/
def boot (hw : Hardware) (samples : List Bool) (b : Board) : Board × Status :=
  let good := waitPgood samples (powerUp hw b)
  if !good.2 then (good.1, .waiting) else initPHYs strap (releaseReset good.1)

/-! ## The polling loop -/

structure St where
  board : Board
  baset_linkUp : Bool
  spe_linkUp : Bool

/-- What `PrintSPEStatus` reads, in its order. -/
inductive SpeReg | physts | physcr | recr | misr3 | r133 | tdrtc1

/-- One turn of the loop. The registers of a PHY may change at any time: these
are what they hold at each access. -/
structure Poll where
  baset : Store
  spe : Store
  /-- at the accesses of `PrintSPEStatus`, if it is called -/
  print : SpeReg → Store

/-- The registers of a PHY have changed. -/
def Board.become (i : Iface) (st : Store) (b : Board) : Board :=
  let bus := b.bus i
  let regs := { bus.phy.regs with basic := st.basic, mmd := st.mmd }
  { b with bus := Function.update b.bus i { bus with phy := { bus.phy with regs := regs } } }

def flag (v mask : BitVec 16) (set clear : String) (b : Board) : Board :=
  if v &&& mask != 0 then b.print set [] else b.print clear []

/-- `auto v = g_speMDIO->ReadMMD(PHY_ADDR_SPE, 0x1f, reg); g_log(format, v);` -/
def dump (reg : BitVec 16) (format : String) (st : Store) (b : Board) : BitVec 16 × Board :=
  let v := (b.become .spe st).access strap .spe (.readMMD PHY_ADDR_SPE 0x1f reg)
  (v.1, v.2.print format [hex v.1])

/-- mirrors baset1-media-converter/firmware/main.cpp:143-186 -/
def printSPEStatus (st : SpeReg → Store) (b : Board) : Board :=
  if b.speedIsGig then b.print "TODO print status\n" []
  else
    let physts := dump strap 0x10 "PHYSTS = 0x%04x\n" (st .physts) b
    let b := flag physts.1 0x0400 "Channel OK\n" "Channel not OK\n" physts.2
    let b := flag physts.1 0x0200 "Scrambler locked\n" "Scrambler unlocked\n" b
    let b := flag physts.1 0x0001 "Link up\n" "Link down\n" b
    let b := (dump strap 0x11 "PHYSCR = 0x%04x\n" (st .physcr) b).2
    let b := (dump strap 0x15 "RECR = 0x%04x\n" (st .recr) b).2
    let b := (dump strap 0x18 "MISR3 = 0x%04x\n" (st .misr3) b).2
    let b := (dump strap 0x133 "R133 = 0x%04x\n" (st .r133) b).2
    (dump strap 0x310 "TDR_TC1 = 0x%04x\n" (st .tdrtc1) b).2

/-- `(status & 0x4) == 0x4` -/
def linkBit (status : BitVec 16) : Bool := status &&& 0x4 == 0x4

/-- mirrors baset1-media-converter/firmware/main.cpp:116-122 -/
def pollBaset (p : Poll) (s : St) : St :=
  let status := (s.board.become .baset p.baset).access strap .baset (.read PHY_ADDR_BASET 0x01)
  let up := linkBit status.1
  let b := status.2
  let b := if up && !s.baset_linkUp then b.print "Base-T link is up\n" [] else b
  let b := if !up && s.baset_linkUp then b.print "Base-T link is down\n" [] else b
  { s with board := b, baset_linkUp := up }

/-- mirrors baset1-media-converter/firmware/main.cpp:125-137 -/
def pollSpe (p : Poll) (s : St) : St :=
  let status := (s.board.become .spe p.spe).access strap .spe (.read PHY_ADDR_SPE 0x01)
  let up := linkBit status.1
  let b := status.2
  let b := if up && !s.spe_linkUp then
    printSPEStatus strap p.print (b.print "SPE link is up\n" []) else b
  let b := if !up && s.spe_linkUp then
    printSPEStatus strap p.print (b.print "SPE link is down\n" []) else b
  { s with board := b, spe_linkUp := up }

/-- mirrors baset1-media-converter/firmware/main.cpp:113-138 -/
def loop : Machine St Poll Unit := ⟨fun s p => (pollSpe strap p (pollBaset strap p s), ())⟩

/-- mirrors baset1-media-converter/firmware/main.cpp:111-112 -/
def St.start (b : Board) : St := ⟨b, false, false⟩

/-- `main`, as far as these samples and polls go.
mirrors baset1-media-converter/firmware/main.cpp:61-141 -/
def main (hw : Hardware) (samples : List Bool) (polls : List Poll) (b : Board) : Board × Status :=
  let booted := boot strap hw samples b
  if booted.2 = .polling then (((loop strap).final (St.start booted.1) polls).board, .polling)
  else booted

end DevBoards.Converter
