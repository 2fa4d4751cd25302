import DevBoards.Mdio.RegisterMap

/-!
# Indirect access to the MMD registers

`ReadMMD` and `WriteMMD` reach a register of an MDIO manageable device through
registers 13 and 14 of the PHY, in four frames. Behind the bus are now the
registers of IEEE 802.3 Annex 22D: register 13 holds a function and a device;
register 14 is that device's address latch (function 0) or the register its
latch points at (functions 1 to 3; 2 and 3 then step the latch).

* `readMMD_spec`, `writeMMD_spec`: the four frames, whatever the latches held.
* `mmd_refines`: over any run, interleaved with plain calls, each device's
  registers are a store of their own.
-/
namespace DevBoards.Mdio

/-- The registers of a PHY with MMDs. -/
structure MmdRegs where
  /-- Clause 22 registers other than 13 and 14. -/
  basic : BitVec 5 → BitVec 16
  /-- Register 13. -/
  ctrl : BitVec 16
  /-- The address latch of each device. -/
  latch : BitVec 5 → BitVec 16
  /-- The registers of each device. -/
  mmd : BitVec 5 → BitVec 16 → BitVec 16

/-- Bits 15:14 and 4:0 of register 13. -/
def function (ctrl : BitVec 16) : BitVec 2 := ctrl.extractLsb' 14 2

def device (ctrl : BitVec 16) : BitVec 5 := ctrl.setWidth 5

/-- The register `r` of device `m`, with `v` written to it. -/
def setMmd (mmd : BitVec 5 → BitVec 16 → BitVec 16) (m : BitVec 5) (r v : BitVec 16) :
    BitVec 5 → BitVec 16 → BitVec 16 :=
  Function.update mmd m (Function.update (mmd m) r v)

namespace MmdRegs

/-- Step the latch of the device, when the function says so. -/
def postIncrement (s : MmdRegs) (when : Bool) : MmdRegs :=
  if when then { s with latch := Function.update s.latch (device s.ctrl) (s.latch (device s.ctrl) + 1) }
  else s

def read (r : BitVec 5) (s : MmdRegs) : BitVec 16 × MmdRegs :=
  if r = 13 then (s.ctrl, s)
  else if r = 14 then
    let m := device s.ctrl
    if function s.ctrl = 0 then (s.latch m, s)
    else (s.mmd m (s.latch m), s.postIncrement (function s.ctrl == 2))
  else (s.basic r, s)

def write (r : BitVec 5) (v : BitVec 16) (s : MmdRegs) : MmdRegs :=
  if r = 13 then { s with ctrl := v }
  else if r = 14 then
    let m := device s.ctrl
    if function s.ctrl = 0 then { s with latch := Function.update s.latch m v }
    else { s with mmd := setMmd s.mmd m (s.latch m) v }.postIncrement (function s.ctrl != 1)
  else { s with basic := Function.update s.basic r v }

end MmdRegs

def annex22D : Backend MmdRegs := ⟨MmdRegs.read, MmdRegs.write⟩

inductive MmdCall
  | read (phyaddr regaddr : BitVec 8)
  | write (phyaddr regaddr : BitVec 8) (regval : BitVec 16)
  | readMMD (phyaddr : BitVec 8) (mmd regid : BitVec 16)
  | writeMMD (phyaddr : BitVec 8) (mmd regid value : BitVec 16)
deriving DecidableEq, Repr

variable (a : BitVec 5)

/-- The calls, bit by bit. -/
def mmdInterface : Machine (Bus MmdRegs) MmdCall (Option (BitVec 16)) where
  step b
    | .read phyaddr regaddr =>
      let r := Mdio.read (pins a annex22D) phyaddr regaddr b
      (r.2, some r.1)
    | .write phyaddr regaddr regval => (Mdio.write (pins a annex22D) phyaddr regaddr regval b, none)
    | .readMMD phyaddr mmd regid =>
      let r := Mdio.readMMD (pins a annex22D) phyaddr mmd regid b
      (r.2, some r.1)
    | .writeMMD phyaddr mmd regid value =>
      (Mdio.writeMMD (pins a annex22D) phyaddr mmd regid value b, none)

/-- The abstract store: plain registers, and registers of devices. -/
structure Store where
  basic : BitVec 5 → BitVec 16
  mmd : BitVec 5 → BitVec 16 → BitVec 16

def store : Machine Store MmdCall (Option (BitVec 16)) where
  step s
    | .read phyaddr regaddr =>
      (s, some (if phyaddr.setWidth 5 = a then s.basic (regaddr.setWidth 5) else 0xffff))
    | .write phyaddr regaddr regval =>
      (if phyaddr.setWidth 5 = a then
        { s with basic := Function.update s.basic (regaddr.setWidth 5) regval } else s, none)
    | .readMMD phyaddr mmd regid =>
      (s, some (if phyaddr.setWidth 5 = a then s.mmd (mmd.setWidth 5) regid else 0xffff))
    | .writeMMD phyaddr mmd regid value =>
      (if phyaddr.setWidth 5 = a then { s with mmd := setMmd s.mmd (mmd.setWidth 5) regid value }
       else s, none)

/-- Devices are below 32, and plain calls leave registers 13 and 14 of the PHY alone. -/
def MmdCall.Valid : MmdCall → Prop
  | .read phyaddr regaddr | .write phyaddr regaddr _ =>
    phyaddr.setWidth 5 = a → regaddr.setWidth 5 ≠ (13 : BitVec 5) ∧ regaddr.setWidth 5 ≠ (14 : BitVec 5)
  | .readMMD _ mmd _ | .writeMMD _ mmd _ _ => mmd.toNat < 32

/-! ## Register 13 -/

theorem eq_setWidth_device {m : BitVec 16} (hm : m.toNat < 32) : m = (device m).setWidth 16 := by
  apply BitVec.eq_of_toNat_eq
  simp only [device, BitVec.toNat_setWidth]
  omega

/-- What the two values written to register 13 select. -/
theorem ctrl_bits : ∀ d : BitVec 5, function (d.setWidth 16) = 0 ∧
    function (0x4000 ||| d.setWidth 16) = 1 ∧ device (0x4000 ||| d.setWidth 16) = d := by
  decide

theorem function_address {m : BitVec 16} (hm : m.toNat < 32) : function m = 0 := by
  have h := (ctrl_bits (device m)).1
  rwa [← eq_setWidth_device hm] at h

theorem function_data {m : BitVec 16} (hm : m.toNat < 32) : function (0x4000 ||| m) = 1 := by
  have h := (ctrl_bits (device m)).2.1
  rwa [← eq_setWidth_device hm] at h

theorem device_data {m : BitVec 16} (hm : m.toNat < 32) : device (0x4000 ||| m) = device m := by
  have h := (ctrl_bits (device m)).2.2
  rwa [← eq_setWidth_device hm] at h

/-! ## Four frames -/

variable {a} {s : MmdRegs} {m r v : BitVec 16}

/-- Register 14 of device `m` is now its register `r`. -/
def selected (s : MmdRegs) (m r : BitVec 16) : MmdRegs :=
  { s with ctrl := 0x4000 ||| m, latch := Function.update s.latch (device m) r }

theorem write_selected (hm : m.toNat < 32) :
    MmdRegs.write 13 (0x4000 ||| m) (MmdRegs.write 14 r (MmdRegs.write 13 m s)) = selected s m r := by
  have h13 : MmdRegs.write 13 m s = { s with ctrl := m } := if_pos rfl
  have h14 : MmdRegs.write 14 r { s with ctrl := m } =
      { s with ctrl := m, latch := Function.update s.latch (device m) r } := by
    unfold MmdRegs.write
    rw [if_neg (by decide), if_pos rfl]
    simp only [function_address hm, if_true]
  rw [h13, h14]
  exact if_pos rfl

theorem read_data (hm : m.toNat < 32) :
    MmdRegs.read 14 (selected s m r) = (s.mmd (device m) r, selected s m r) := by
  unfold MmdRegs.read
  rw [if_neg (by decide), if_pos rfl]
  have hfun : function (selected s m r).ctrl = 1 := function_data hm
  have hdev : device (selected s m r).ctrl = device m := device_data hm
  simp only [hfun, hdev]
  simp [selected, MmdRegs.postIncrement]

theorem write_data (hm : m.toNat < 32) : MmdRegs.write 14 v (selected s m r) =
    { selected s m r with mmd := setMmd s.mmd (device m) r v } := by
  unfold MmdRegs.write
  rw [if_neg (by decide), if_pos rfl]
  have hfun : function (selected s m r).ctrl = 1 := function_data hm
  have hdev : device (selected s m r).ctrl = device m := device_data hm
  simp only [hfun, hdev]
  simp [selected, MmdRegs.postIncrement]

/-- The first three frames of an access. -/
theorem select_spec (a : BitVec 5) {b : Bus MmdRegs} (h : Idle b s) (phyaddr : BitVec 8)
    (hm : m.toNat < 32) (r : BitVec 16) :
    let P := pins a annex22D
    Idle (Mdio.write P phyaddr 0x0d (0x4000 ||| m)
        (Mdio.write P phyaddr 0x0e r (Mdio.write P phyaddr 0x0d m b)))
      (if phyaddr.setWidth 5 = a then selected s m r else s) := by
  have h1 := write_spec a annex22D h phyaddr 0x0d m
  have h2 := write_spec a annex22D h1 phyaddr 0x0e r
  have hidle := write_spec a annex22D h2 phyaddr 0x0d (0x4000 ||| m)
  by_cases hp : phyaddr.setWidth 5 = a
  · simp only [regWrite, if_pos hp] at hidle ⊢
    rw [← write_selected hm]
    exact hidle
  · simp only [regWrite, if_neg hp] at hidle ⊢
    exact hidle

/-- The store the PHY's registers amount to. -/
def MmdRegs.toStore (s : MmdRegs) : Store := ⟨s.basic, s.mmd⟩

/-- Between calls: the bus is idle and the PHY holds the store. -/
def Holds (b : Bus MmdRegs) (st : Store) : Prop := ∃ regs, Idle b regs ∧ regs.toStore = st

variable {b : Bus MmdRegs} {st : Store}

/-- **ReadMMD.** -/
theorem readMMD_spec (h : Holds b st) (phyaddr : BitVec 8) (hm : m.toNat < 32) :
    (readMMD (pins a annex22D) phyaddr m r b).1 =
        (if phyaddr.setWidth 5 = a then st.mmd (m.setWidth 5) r else 0xffff) ∧
      Holds (readMMD (pins a annex22D) phyaddr m r b).2 st := by
  obtain ⟨regs, hidle, rfl⟩ := h
  obtain ⟨hret, hend⟩ := read_spec a annex22D (select_spec a hidle phyaddr hm r) phyaddr 0x0e
  unfold readMMD
  simp only
  rw [hret]
  by_cases hp : phyaddr.setWidth 5 = a
  · simp only [regRead, if_pos hp] at hend ⊢
    have hdata : annex22D.read ((0x0e : BitVec 8).setWidth 5) (selected regs m r) =
      (regs.mmd (device m) r, selected regs m r) := read_data hm
    rw [hdata] at hend ⊢
    exact ⟨rfl, _, hend, rfl⟩
  · simp only [regRead, if_neg hp] at hend ⊢
    exact ⟨trivial, regs, hend, rfl⟩

/-- **WriteMMD.** -/
theorem writeMMD_spec (h : Holds b st) (phyaddr : BitVec 8) (hm : m.toNat < 32) :
    Holds (writeMMD (pins a annex22D) phyaddr m r v b)
      (if phyaddr.setWidth 5 = a then { st with mmd := setMmd st.mmd (m.setWidth 5) r v } else st) := by
  obtain ⟨regs, hidle, rfl⟩ := h
  have hend := write_spec a annex22D (select_spec a hidle phyaddr hm r) phyaddr 0x0e v
  unfold writeMMD
  by_cases hp : phyaddr.setWidth 5 = a
  · simp only [regWrite, if_pos hp] at hend ⊢
    have hdata : annex22D.write ((0x0e : BitVec 8).setWidth 5) v (selected regs m r) =
      { selected regs m r with mmd := setMmd regs.mmd (device m) r v } := write_data hm
    rw [hdata] at hend
    exact ⟨_, hend, rfl⟩
  · simp only [regWrite, if_neg hp] at hend ⊢
    exact ⟨regs, hend, rfl⟩

/-! ## Runs -/

/-- One call on the bus is one on the store. -/
theorem mmd_step (h : Holds b st) (c : MmdCall) (hc : c.Valid a) :
    Holds ((mmdInterface a).step b c).1 ((store a).step st c).1 ∧
      ((mmdInterface a).step b c).2 = ((store a).step st c).2 := by
  cases c with
  | read phyaddr regaddr =>
    obtain ⟨regs, hidle, rfl⟩ := h
    obtain ⟨hret, hend⟩ := read_spec a annex22D hidle phyaddr regaddr
    have hread : regRead a annex22D phyaddr regaddr regs =
        (if phyaddr.setWidth 5 = a then regs.basic (regaddr.setWidth 5) else 0xffff, regs) := by
      unfold regRead
      split
      · obtain ⟨h13, h14⟩ := hc ‹_›
        exact (if_neg h13).trans (if_neg h14)
      · rfl
    rw [hread] at hret hend
    exact ⟨⟨regs, hend, rfl⟩, congrArg some hret⟩
  | write phyaddr regaddr regval =>
    obtain ⟨regs, hidle, rfl⟩ := h
    have hend := write_spec a annex22D hidle phyaddr regaddr regval
    refine ⟨⟨_, hend, ?_⟩, rfl⟩
    unfold regWrite store
    simp only
    split
    · obtain ⟨h13, h14⟩ := hc ‹_›
      have hbasic : annex22D.write (regaddr.setWidth 5) regval regs = _ :=
        (if_neg h13).trans (if_neg h14)
      rw [hbasic]
      rfl
    · rfl
  | readMMD phyaddr mmd regid =>
    obtain ⟨hret, hend⟩ := readMMD_spec h phyaddr hc
    exact ⟨hend, congrArg some hret⟩
  | writeMMD phyaddr mmd regid value => exact ⟨writeMMD_spec h phyaddr hc, rfl⟩

/-- **Indirect access** is a faithful store: over any run of valid calls on a
freshly constructed interface, whatever registers 13 and 14 and the latches
held, calls return and the PHY's registers hold what the store says, and the
two ends never drive the line at once. -/
theorem mmd_refines (a : BitVec 5) (regs : MmdRegs) (out latch clk : Bool) (ones : Nat)
    (calls : List MmdCall) (hvalid : ∀ c ∈ calls, c.Valid a) :
    let b := construct (pins a annex22D) (fresh out latch clk ones regs)
    (mmdInterface a).outs b calls = (store a).outs regs.toStore calls ∧
      ((mmdInterface a).final b calls).phy.regs.toStore = (store a).final regs.toStore calls ∧
      ((mmdInterface a).final b calls).clash = false := by
  intro b
  have hidle : Idle b regs := idle_construct out latch clk ones regs
  obtain ⟨⟨regs', hend, hstore⟩, houts⟩ := (mmdInterface a).simulation (store a) Holds
    (fun _ c => c.Valid a) id id (fun _ _ c h hc => mmd_step h c hc) calls b regs.toStore
    ⟨regs, hidle, rfl⟩ ((mmdInterface a).along_of_forall (fun _ c hc => hvalid c hc) b)
  rw [List.map_id] at hstore
  rw [List.map_id, List.map_id] at houts
  exact ⟨houts, by rw [hend.regs_eq]; exact hstore, hend.no_clash⟩

theorem mmd_refines_readback :
    (mmdInterface 5).outs
      (construct (pins 5 annex22D) (fresh false true false 0 ⟨fun _ => 0, 0xc003, fun _ => 7, fun _ _ => 1⟩))
      [.writeMMD 5 3 0x8000 0xabcd, .write 5 4 0x01e1, .readMMD 5 3 0x8000, .readMMD 5 3 7] =
        [none, none, some 0xabcd, some 1] := by
  rw [(mmd_refines 5 _ false true false 0 _ (by simp [MmdCall.Valid])).1]
  decide

end DevBoards.Mdio
