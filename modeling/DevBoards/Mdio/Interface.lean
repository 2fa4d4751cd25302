import Mathlib.Logic.Function.Iterate

/-!
# The bit-banged MDIO controller

`BitbangedMDIOInterface` (baset1-media-converter/firmware). Its two pins are a
parameter: `Pins W` says what the writes and reads of `m_clk` and `m_io` do to
a world `W`.
-/
namespace DevBoards.Mdio

inductive Mode | input | output
deriving DecidableEq, Repr

/-- `m_io` and `m_clk`. -/
structure Pins (W : Type) where
  /-- `m_io.SetMode(mode, 0, false)` -/
  setMode : Mode → W → W
  /-- `m_io = level` -/
  setIo : Bool → W → W
  /-- the value of `m_io` -/
  getIo : W → Bool × W
  /-- `m_clk = level` -/
  setClk : Bool → W → W

variable {W : Type} (P : Pins W)

/-- mirrors baset1-media-converter/firmware/BitbangedMDIOInterface.cpp:36-42 -/
def construct (w : W) : W := P.setClk false (P.setMode .input w)

/-- mirrors baset1-media-converter/firmware/BitbangedMDIOInterface.cpp:47-55 -/
def clockCycle (w : W) : W := P.setClk false (P.setClk true w)

/-- `m_io = level; ClockCycle();` -/
def sendBit (level : Bool) (w : W) : W := clockCycle P (P.setIo level w)

/-- mirrors baset1-media-converter/firmware/BitbangedMDIOInterface.cpp:57-70 -/
def sendAddress (addr : BitVec 8) (w : W) : W :=
  let w := sendBit P (addr &&& 0x10 != 0) w
  let w := sendBit P (addr &&& 0x08 != 0) w
  let w := sendBit P (addr &&& 0x04 != 0) w
  let w := sendBit P (addr &&& 0x02 != 0) w
  sendBit P (addr &&& 0x01 != 0) w

/-- The 32 cycles of the preamble: 8 times 4.
mirrors baset1-media-converter/firmware/BitbangedMDIOInterface.cpp:74-81 -/
def preamble : W → W := (fun w => clockCycle P (clockCycle P (clockCycle P (clockCycle P w))))^[8]

/-- `n` turns of the loop that reads the reply.
mirrors baset1-media-converter/firmware/BitbangedMDIOInterface.cpp:108-115 -/
def readReply : Nat → BitVec 16 → W → BitVec 16 × W
  | 0, ret, w => (ret, w)
  | n + 1, ret, w =>
    let ret := ret <<< 1
    let (level, w) := P.getIo w
    let ret := if level then ret ||| 1 else ret
    readReply n ret (clockCycle P w)

/-- mirrors baset1-media-converter/firmware/BitbangedMDIOInterface.cpp:72-118 -/
def read (phyaddr regaddr : BitVec 8) (w : W) : BitVec 16 × W :=
  let w := preamble P w
  let w := P.setMode .output w
  let w := sendBit P true (sendBit P false w)
  let w := sendBit P false (sendBit P true w)
  let w := sendAddress P phyaddr w
  let w := sendAddress P regaddr w
  let w := P.setMode .input w
  let w := clockCycle P (clockCycle P w)
  readReply P 16 0 w

/-- `n` turns of the loop that sends the message.
mirrors baset1-media-converter/firmware/BitbangedMDIOInterface.cpp:157-166 -/
def sendMessage : Nat → BitVec 16 → W → W
  | 0, _, w => w
  | n + 1, regval, w =>
    let w := if regval &&& 0x8000 != 0 then P.setIo true w else P.setIo false w
    sendMessage n (regval <<< 1) (clockCycle P w)

/-- mirrors baset1-media-converter/firmware/BitbangedMDIOInterface.cpp:120-172 -/
def write (phyaddr regaddr : BitVec 8) (regval : BitVec 16) (w : W) : W :=
  let w := preamble P w
  let w := P.setMode .output w
  let w := sendBit P true (sendBit P false w)
  let w := sendBit P true (sendBit P false w)
  let w := sendAddress P phyaddr w
  let w := sendAddress P regaddr w
  let w := sendBit P false (sendBit P true w)
  let w := sendMessage P 16 regval w
  let w := P.setMode .input w
  clockCycle P (clockCycle P w)

/-- mirrors baset1-media-converter/firmware/BitbangedMDIOInterface.cpp:174-180 -/
def readMMD (phyaddr : BitVec 8) (mmd regid : BitVec 16) (w : W) : BitVec 16 × W :=
  let w := write P phyaddr 0x0d mmd w
  let w := write P phyaddr 0x0e regid w
  let w := write P phyaddr 0x0d (0x4000 ||| mmd) w
  read P phyaddr 0x0e w

/-- mirrors baset1-media-converter/firmware/BitbangedMDIOInterface.cpp:182-188 -/
def writeMMD (phyaddr : BitVec 8) (mmd regid value : BitVec 16) (w : W) : W :=
  let w := write P phyaddr 0x0d mmd w
  let w := write P phyaddr 0x0e regid w
  let w := write P phyaddr 0x0d (0x4000 ||| mmd) w
  write P phyaddr 0x0e value w

end DevBoards.Mdio
