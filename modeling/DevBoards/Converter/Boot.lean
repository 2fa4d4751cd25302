import DevBoards.Converter.Startup

/-!
# What bring-up configures

Bring-up in terms of the registers that the PHYs hold: it validates the two
identifiers, writes one register of a DP83TC814, and restricts the base-T PHY
to 100 Mbps unless the other is a DP83TG720S. `Layout` says what the PHYs
hold, and `outcome` and `configured` what becomes of it.

* `access_spec`: one access, bit by bit, on what a PHY holds.
* `boot_configures`: where bring-up ends, and what it leaves in the PHYs.
-/
namespace DevBoards.Converter
open Mdio

/-- The registers of both PHYs. -/
abbrev Layout := Iface → Store

variable (strap : Iface → BitVec 5)

/-- What a read of a basic register of address 0 gives. -/
def seen (i : Iface) (st : Store) (r : BitVec 5) : BitVec 16 :=
  if strap i = 0 then st.basic r else 0xffff

def vendor (i : Iface) (st : Store) : BitVec 32 := oui (seen strap i st 2) (seen strap i st 3)

def part (i : Iface) (st : Store) : BitVec 16 := model (seen strap i st 3)

/-- Where bring-up ends, once power is good. -/
def outcome (l : Layout) : Status :=
  if vendor strap .spe (l .spe) ≠ 0x80028 then .hung .spe
  else if vendor strap .baset (l .baset) ≠ 0x885 then .hung .baset
  else .polling

/-- A DP83TC814. -/
def Is100 (l : Layout) : Prop := vendor strap .spe (l .spe) = 0x80028 ∧ part strap .spe (l .spe) = 0x26

/-- A DP83TG720S. -/
def IsGig (l : Layout) : Prop := vendor strap .spe (l .spe) = 0x80028 ∧ part strap .spe (l .spe) = 0x28

instance (l : Layout) : Decidable (Is100 strap l) := instDecidableAnd

instance (l : Layout) : Decidable (IsGig strap l) := instDecidableAnd

def advertise (basic : BitVec 5 → BitVec 16) : BitVec 5 → BitVec 16 :=
  Function.update (Function.update (Function.update basic 9 0x0000) 4 0x0101) 0 0x1300

/-- The registers after bring-up. -/
def configured (l : Layout) : Layout
  | .spe => if Is100 strap l then { l .spe with mmd := setMmd (l .spe).mmd 0x1f 0x451 0x9 } else l .spe
  | .baset =>
    if outcome strap l = .polling ∧ ¬ IsGig strap l then
      { l .baset with basic := advertise (l .baset).basic }
    else l .baset

/-! ## One access -/

section Board
variable {strap} (b : Board)

@[simp] theorem print_bus (format : String) (args : List Arg) :
    (b.print format args).bus = b.bus := rfl

@[simp] theorem log_bus (e : Entry) : (b.log e).bus = b.bus := rfl

@[simp] theorem drive_bus (pin : Pin) (level : Bool) : (b.drive pin level).bus = b.bus := rfl

@[simp] theorem print_levels (format : String) (args : List Arg) :
    (b.print format args).levels = b.levels := rfl

@[simp] theorem log_levels (e : Entry) : (b.log e).levels = b.levels := rfl

@[simp] theorem drive_levels (pin : Pin) (level : Bool) :
    (b.drive pin level).levels = b.levels.drive pin level := rfl

@[simp] theorem print_speedIsGig (format : String) (args : List Arg) :
    (b.print format args).speedIsGig = b.speedIsGig := rfl

@[simp] theorem log_speedIsGig (e : Entry) : (b.log e).speedIsGig = b.speedIsGig := rfl

@[simp] theorem drive_speedIsGig (pin : Pin) (level : Bool) :
    (b.drive pin level).speedIsGig = b.speedIsGig := rfl

@[simp] theorem access_levels (i : Iface) (c : MmdCall) :
    (b.access strap i c).2.levels = b.levels := rfl

@[simp] theorem access_speedIsGig (i : Iface) (c : MmdCall) :
    (b.access strap i c).2.speedIsGig = b.speedIsGig := rfl

@[simp] theorem construct_levels (i : Iface) : (b.construct strap i).levels = b.levels := rfl

@[simp] theorem construct_speedIsGig (i : Iface) :
    (b.construct strap i).speedIsGig = b.speedIsGig := rfl

theorem access_bus_self (i : Iface) (c : MmdCall) :
    (b.access strap i c).2.bus i = ((mmdInterface (strap i)).step (b.bus i) c).1 :=
  Function.update_self ..

theorem construct_bus_self (i : Iface) :
    (b.construct strap i).bus i = Mdio.construct (pins (strap i) annex22D) (b.bus i) :=
  Function.update_self ..

theorem access_bus_ne {i j : Iface} (h : j ≠ i) (c : MmdCall) :
    (b.access strap i c).2.bus j = b.bus j :=
  Function.update_of_ne h ..

theorem construct_bus_ne {i j : Iface} (h : j ≠ i) : (b.construct strap i).bus j = b.bus j :=
  Function.update_of_ne h ..

end Board

section Access
variable {b : Board} {i : Iface} {st : Store}

/-- **One access.** -/
theorem access_spec (h : Holds (b.bus i) st) (c : MmdCall) (hc : c.Valid (strap i)) :
    (b.access strap i c).1 = ((store (strap i)).step st c).2.getD 0 ∧
      Holds ((b.access strap i c).2.bus i) ((store (strap i)).step st c).1 := by
  obtain ⟨hstep, hout⟩ := mmd_step h c hc
  refine ⟨congrArg (Option.getD · 0) hout, ?_⟩
  rw [access_bus_self]
  exact hstep

/-- A read of a basic register of address 0 other than 13 and 14. -/
theorem access_read (h : Holds (b.bus i) st) {r : BitVec 8} {q : BitVec 5} (hr : r.setWidth 5 = q)
    (hq : q ≠ 13 ∧ q ≠ 14) :
    (b.access strap i (.read 0 r)).1 = seen strap i st q ∧
      Holds ((b.access strap i (.read 0 r)).2.bus i) st := by
  subst hr
  obtain ⟨hret, hholds⟩ := access_spec strap h (.read 0 r) fun _ => hq
  refine ⟨hret.trans ?_, hholds⟩
  unfold seen
  exact if_congr eq_comm rfl rfl

/-- An interface that is not built yet, in front of a PHY that is between frames. -/
def Fresh (bus : Bus MmdRegs) (st : Store) : Prop :=
  ∃ out latch clk ones regs, bus = fresh out latch clk ones regs ∧ regs.toStore = st

theorem construct_holds (h : Fresh (b.bus i) st) : Holds ((b.construct strap i).bus i) st := by
  obtain ⟨out, latch, clk, ones, regs, hbus, rfl⟩ := h
  refine ⟨regs, ?_, rfl⟩
  rw [construct_bus_self, hbus]
  exact idle_construct out latch clk ones regs

/-- Nothing answers at address 0, so all reads are ones. -/
theorem strap_of_vendor {strap : Iface → BitVec 5} (h : vendor strap i st ≠ 0x3fffff) : strap i = 0 := by
  by_contra hne
  apply h
  unfold vendor seen
  simp only [if_neg hne]
  decide

theorem identify_spec (h : Fresh (b.bus i) st) :
    (identify strap i 0 b).1 = seen strap i st 2 ∧ (identify strap i 0 b).2.1 = seen strap i st 3 ∧
      Holds ((identify strap i 0 b).2.2.bus i) st := by
  have h1 := access_read strap (construct_holds strap h) (show (0x02 : BitVec 8).setWidth 5 = 2 from rfl)
    (by decide)
  have h2 := access_read strap h1.2 (show (0x03 : BitVec 8).setWidth 5 = 3 from rfl) (by decide)
  unfold identify
  dsimp only
  exact ⟨h1.1, h2⟩

theorem identify_bus_ne {i j : Iface} (h : j ≠ i) (phyaddr : BitVec 8) (b : Board) :
    (identify strap i phyaddr b).2.2.bus j = b.bus j := by
  unfold identify
  rw [access_bus_ne _ h, access_bus_ne _ h, construct_bus_ne _ h]

end Access

/-! ## The two PHYs -/

section Init
variable {strap} {b : Board} {l : Layout}

theorem initDP83TC814_spec (id2 : BitVec 16) {st : Store} (h : Holds (b.bus .spe) st)
    (hstrap : strap .spe = 0) :
    Holds ((initDP83TC814 strap id2 b).bus .spe)
        { st with mmd := setMmd st.mmd 0x1f 0x451 0x9 } ∧
      (initDP83TC814 strap id2 b).bus .baset = b.bus .baset ∧
      (initDP83TC814 strap id2 b).levels = b.levels.drive pwren_1v0 false ∧
      (initDP83TC814 strap id2 b).speedIsGig = false := by
  let b0 : Board :=
    { ((b.print "Detected DP83TC814 stepping %d (100base-T1)\n" [hex (stepping id2)]).print
        "Turning off 1.0V power rail as it's not needed for this PHY\n" []).drive pwren_1v0 false
      with speedIsGig := false }
  let b1 := (b0.access strap .spe (.writeMMD 0 0x1f 0x451 0x9)).2
  let b2 := (b1.access strap .spe (.readMMD 0 0x1 0x834)).2
  have hwrite : Holds (b1.bus .spe) { st with mmd := setMmd st.mmd 0x1f 0x451 0x9 } := by
    have hspec := (access_spec strap (b := b0) h (.writeMMD 0 0x1f 0x451 0x9)
      (show (0x1f : BitVec 16).toNat < 32 by decide)).2
    rwa [show ((store (strap .spe)).step st (.writeMMD 0 0x1f 0x451 0x9)).1 =
      { st with mmd := setMmd st.mmd 0x1f 0x451 0x9 } from if_pos hstrap.symm] at hspec
  have hread : Holds (b2.bus .spe) { st with mmd := setMmd st.mmd 0x1f 0x451 0x9 } :=
    (access_spec strap hwrite (.readMMD 0 0x1 0x834) (show (0x1 : BitVec 16).toNat < 32 by decide)).2
  have hbaset : b2.bus .baset = b.bus .baset := by
    rw [access_bus_ne _ (by decide), access_bus_ne _ (by decide)]
    rfl
  unfold initDP83TC814
  dsimp only
  split
  · exact ⟨hread, hbaset, rfl, rfl⟩
  · exact ⟨hread, hbaset, rfl, rfl⟩

theorem setupSPEPHY_spec (h : Holds (b.bus .spe) (l .spe)) (hgig : b.speedIsGig = false)
    {id1 id2 : BitVec 16} (h1 : id1 = seen strap .spe (l .spe) 2)
    (h2 : id2 = seen strap .spe (l .spe) 3) :
    ((setupSPEPHY strap id1 id2 b).2 = true ↔ vendor strap .spe (l .spe) = 0x80028) ∧
      Holds ((setupSPEPHY strap id1 id2 b).1.bus .spe) (configured strap l .spe) ∧
      (setupSPEPHY strap id1 id2 b).1.bus .baset = b.bus .baset ∧
      (setupSPEPHY strap id1 id2 b).1.levels =
        (if Is100 strap l then b.levels.drive pwren_1v0 false else b.levels) ∧
      (setupSPEPHY strap id1 id2 b).1.speedIsGig = decide (IsGig strap l) := by
  have hvendor : oui id1 id2 = vendor strap .spe (l .spe) := by rw [h1, h2, vendor]
  have hpart : model id2 = part strap .spe (l .spe) := by rw [h2, part]
  unfold setupSPEPHY
  rw [hvendor, hpart]
  by_cases hv : vendor strap .spe (l .spe) = 0x80028
  · have hstrap : strap .spe = 0 := strap_of_vendor (by rw [hv]; decide)
    rw [if_neg (not_not.mpr hv)]
    by_cases h26 : part strap .spe (l .spe) = 0x26
    · have h100 : Is100 strap l := ⟨hv, h26⟩
      have hslow : ¬ IsGig strap l := fun h => absurd (h26.symm.trans h.2) (by decide)
      obtain ⟨hmmd, hother, hrail, hgig'⟩ := initDP83TC814_spec id2 h hstrap
      rw [if_pos h26, if_pos h100, decide_eq_false hslow, configured, if_pos h100]
      exact ⟨iff_of_true rfl hv, hmmd, hother, hrail, hgig'⟩
    · have h100 : ¬ Is100 strap l := fun h => h26 h.2
      rw [if_neg h26, configured, if_neg h100, if_neg h100]
      by_cases h28 : part strap .spe (l .spe) = 0x28
      · rw [if_pos h28, decide_eq_true ⟨hv, h28⟩]
        exact ⟨iff_of_true rfl hv, h, rfl, rfl, rfl⟩
      · rw [if_neg h28, decide_eq_false fun h => h28 h.2]
        exact ⟨iff_of_true rfl hv, h, rfl, rfl, hgig⟩
  · have h100 : ¬ Is100 strap l := fun h => hv h.1
    rw [if_pos hv, configured, if_neg h100, if_neg h100, decide_eq_false fun h => hv h.1]
    exact ⟨iff_of_false Bool.false_ne_true hv, h, rfl, rfl, hgig⟩

theorem initSPEPHY_spec (h : Fresh (b.bus .spe) (l .spe)) (hgig : b.speedIsGig = false) :
    ((initSPEPHY strap b).2 = true ↔ vendor strap .spe (l .spe) = 0x80028) ∧
      Holds ((initSPEPHY strap b).1.bus .spe) (configured strap l .spe) ∧
      (initSPEPHY strap b).1.bus .baset = b.bus .baset ∧
      (initSPEPHY strap b).1.levels =
        (if Is100 strap l then b.levels.drive pwren_1v0 false else b.levels) ∧
      (initSPEPHY strap b).1.speedIsGig = decide (IsGig strap l) := by
  obtain ⟨h1, h2, hholds⟩ :=
    identify_spec strap (b := b.print "Initializing SPE PHY\n" []) h
  obtain ⟨hreturn, hspe, hother, hlevels, hspeed⟩ := setupSPEPHY_spec hholds hgig h1 h2
  exact ⟨hreturn, hspe, hother.trans (identify_bus_ne strap (by decide) 0 _), hlevels, hspeed⟩

/-- The three writes that restrict the base-T PHY. -/
theorem advertise100_spec {st : Store} (h : Holds (b.bus .baset) st) (hstrap : strap .baset = 0) :
    Holds ((advertise100 strap b).bus .baset) { st with basic := advertise st.basic } ∧
      (advertise100 strap b).bus .spe = b.bus .spe := by
  have hwrite {b : Board} {st : Store} (h : Holds (b.bus .baset) st) (r : BitVec 8) (v : BitVec 16)
      (hr : r.setWidth 5 ≠ (13 : BitVec 5) ∧ r.setWidth 5 ≠ (14 : BitVec 5)) :
      Holds ((b.access strap .baset (.write 0 r v)).2.bus .baset)
        { st with basic := Function.update st.basic (r.setWidth 5) v } := by
    have hspec := (access_spec strap h (.write 0 r v) fun _ => hr).2
    rwa [show ((store (strap .baset)).step st (.write 0 r v)).1 =
      { st with basic := Function.update st.basic (r.setWidth 5) v } from if_pos hstrap.symm] at hspec
  have hcontrol := hwrite (b := b.print "Advertising only 100baseTX mode\n" []) h 0x9 0x0000 (by decide)
  have hbase := hwrite hcontrol 0x4 0x0101 (by decide)
  refine ⟨hwrite hbase 0x0 0x1300 (by decide), ?_⟩
  unfold advertise100
  rw [access_bus_ne _ (by decide), access_bus_ne _ (by decide), access_bus_ne _ (by decide)]
  rfl

theorem setupBaseTPHY_spec {st : Store} (h : Holds (b.bus .baset) st) {id1 id2 : BitVec 16}
    (h1 : id1 = seen strap .baset st 2) (h2 : id2 = seen strap .baset st 3) :
    ((setupBaseTPHY strap id1 id2 b).2 = true ↔ vendor strap .baset st = 0x885) ∧
      Holds ((setupBaseTPHY strap id1 id2 b).1.bus .baset)
        (if vendor strap .baset st = 0x885 ∧ b.speedIsGig = false then
          { st with basic := advertise st.basic } else st) ∧
      (setupBaseTPHY strap id1 id2 b).1.bus .spe = b.bus .spe ∧
      (setupBaseTPHY strap id1 id2 b).1.levels = b.levels ∧
      (setupBaseTPHY strap id1 id2 b).1.speedIsGig = b.speedIsGig := by
  have hvendor : oui id1 id2 = vendor strap .baset st := by rw [h1, h2, vendor]
  unfold setupBaseTPHY
  rw [hvendor]
  by_cases hv : vendor strap .baset st = 0x885
  · have hstrap : strap .baset = 0 := strap_of_vendor (by rw [hv]; decide)
    rw [if_neg (not_not.mpr hv)]
    generalize hb' : (if model id2 = 0x22 then
      b.print "Detected KSZ9031RNX stepping %d \n" [hex (stepping id2)]
      else b.log ⟨.warning, "Unknown Kendin PHY %02x stepping %d\n", [hex (stepping id2)]⟩) = b'
    have hsame : b'.bus = b.bus ∧ b'.levels = b.levels ∧ b'.speedIsGig = b.speedIsGig := by
      rw [← hb']
      split
      · exact ⟨rfl, rfl, rfl⟩
      · exact ⟨rfl, rfl, rfl⟩
    obtain ⟨hbus, hlevels, hspeed⟩ := hsame
    rw [← hspeed]
    dsimp only
    cases hgig : b'.speedIsGig with
    | true =>
      rw [if_neg (show ¬ (!true) = true by decide), if_neg fun h => Bool.noConfusion h.2]
      exact ⟨iff_of_true rfl hv, hbus ▸ h, congrFun hbus _, hlevels, hgig⟩
    | false =>
      obtain ⟨hadvertise, hother⟩ := advertise100_spec (b := b') (hbus ▸ h) hstrap
      rw [if_pos (show (!false) = true from rfl), if_pos ⟨hv, rfl⟩]
      exact ⟨iff_of_true rfl hv, hadvertise, hother.trans (congrFun hbus _), hlevels, hgig⟩
  · rw [if_pos hv, if_neg fun h => hv h.1]
    exact ⟨iff_of_false Bool.false_ne_true hv, h, rfl, rfl, rfl⟩

theorem initBaseTPHY_spec {st : Store} (h : Fresh (b.bus .baset) st) :
    ((initBaseTPHY strap b).2 = true ↔ vendor strap .baset st = 0x885) ∧
      Holds ((initBaseTPHY strap b).1.bus .baset)
        (if vendor strap .baset st = 0x885 ∧ b.speedIsGig = false then
          { st with basic := advertise st.basic } else st) ∧
      (initBaseTPHY strap b).1.bus .spe = b.bus .spe ∧
      (initBaseTPHY strap b).1.levels = b.levels ∧
      (initBaseTPHY strap b).1.speedIsGig = b.speedIsGig := by
  obtain ⟨h1, h2, hholds⟩ :=
    identify_spec strap (b := b.print "Initializing BaseT PHY\n" []) h
  obtain ⟨hreturn, hbaset, hother, hrest⟩ := setupBaseTPHY_spec hholds h1 h2
  exact ⟨hreturn, hbaset, hother.trans (identify_bus_ne strap (by decide) 0 _), hrest⟩

end Init

/-! ## Bring-up -/

/-- The board as the processor comes out of reset, with PHYs that hold `l`. -/
structure Cold (b : Board) (l : Layout) : Prop where
  bus : ∀ i, Fresh (b.bus i) (l i)
  gig : b.speedIsGig = false

theorem logs_bus (es : List Entry) (b : Board) :
    (es.foldl (fun b e => b.log e) b).bus = b.bus ∧
      (es.foldl (fun b e => b.log e) b).speedIsGig = b.speedIsGig := by
  induction es generalizing b with
  | nil => exact ⟨rfl, rfl⟩
  | cons e es ih => exact ih (b.log e)

theorem waitPgood_frame (samples : List Bool) (b : Board) :
    (waitPgood samples b).1.bus = b.bus ∧ (waitPgood samples b).1.levels = b.levels ∧
      (waitPgood samples b).1.speedIsGig = b.speedIsGig := by
  induction samples generalizing b with
  | nil => exact ⟨rfl, rfl, rfl⟩
  | cons level samples ih =>
    cases level with
    | true => exact ⟨rfl, rfl, rfl⟩
    | false => exact ih (b.emit (.pgood false))

/-- The pins after bring-up. -/
structure Pinned (strap : Iface → BitVec 5) (l : Layout) (levels : Levels) : Prop where
  resets : levels baset_rst_n = true ∧ levels spe_rst_n = true
  io : levels pwren_1v2 = true
  core : levels pwren_1v0 = !decide (Is100 strap l)
  leds : ∀ pin ∈ gpio_led, levels pin = false

/-- What bring-up ends with, once power is good. -/
structure Booted (strap : Iface → BitVec 5) (l : Layout) (r : Board × Status) : Prop where
  status : r.2 = outcome strap l
  gig : r.1.speedIsGig = decide (IsGig strap l)
  pins : Pinned strap l r.1.levels
  regs : ∀ i, (r.1.bus i).phy.regs.toStore = configured strap l i
  quiet : ∀ i, (r.1.bus i).clash = false
  idle : outcome strap l = .polling → ∀ i, Holds (r.1.bus i) (configured strap l i)

section Bus
variable {bus : Bus MmdRegs} {st : Store}

theorem holds_regs (h : Holds bus st) : bus.phy.regs.toStore = st ∧ bus.clash = false := by
  obtain ⟨regs, hidle, rfl⟩ := h
  exact ⟨by rw [hidle.regs_eq], hidle.no_clash⟩

theorem fresh_regs (h : Fresh bus st) : bus.phy.regs.toStore = st ∧ bus.clash = false := by
  obtain ⟨out, latch, clk, ones, regs, rfl, rfl⟩ := h
  exact ⟨rfl, rfl⟩

end Bus

theorem powerUp_frame (hw : Hardware) (b : Board) :
    (powerUp hw b).bus = b.bus ∧ (powerUp hw b).speedIsGig = b.speedIsGig ∧
      (powerUp hw b).levels pwren_1v0 = true ∧ (powerUp hw b).levels pwren_1v2 = true ∧
      ∀ pin ∈ gpio_led, (powerUp hw b).levels pin = false := by
  obtain ⟨hbus, hgig⟩ := logs_bus ((detectHardware hw.IDCODE hw.F_ID hw.uid).1.map Line.entry) b
  refine ⟨hbus, hgig, rfl, rfl, ?_⟩
  intro pin hpin
  simp only [gpio_led, List.mem_cons, List.not_mem_nil, or_false] at hpin
  rcases hpin with rfl | rfl | rfl | rfl
  · rfl
  · rfl
  · rfl
  · rfl

/-- The board when the PHYs are out of reset. -/
theorem released_frame (hw : Hardware) (samples : List Bool) (b : Board) :
    let r := releaseReset (waitPgood samples (powerUp hw b)).1
    r.bus = b.bus ∧ r.speedIsGig = b.speedIsGig ∧
      r.levels = ((powerUp hw b).levels.drive baset_rst_n true).drive spe_rst_n true := by
  obtain ⟨hbus, hlevels, hgig⟩ := waitPgood_frame samples (powerUp hw b)
  obtain ⟨hbus', hgig', -⟩ := powerUp_frame hw b
  exact ⟨hbus.trans hbus', hgig.trans hgig',
    congrArg (fun v : Levels => (v.drive baset_rst_n true).drive spe_rst_n true) hlevels⟩

theorem released_pinned (strap : Iface → BitVec 5) (l : Layout) (hw : Hardware) (samples : List Bool)
    (b : Board) :
    let r := releaseReset (waitPgood samples (powerUp hw b)).1
    Pinned strap l (if Is100 strap l then r.levels.drive pwren_1v0 false else r.levels) := by
  intro r
  obtain ⟨-, -, hlevels⟩ := released_frame hw samples b
  obtain ⟨-, -, hcore, hio, hleds⟩ := powerUp_frame hw b
  have hled : ∀ pin ∈ gpio_led, pin ≠ baset_rst_n ∧ pin ≠ spe_rst_n ∧ pin ≠ pwren_1v0 := by decide
  have hrail : ∀ pin, (if Is100 strap l then r.levels.drive pwren_1v0 false else r.levels) pin =
      if pin = pwren_1v0 ∧ Is100 strap l then false else r.levels pin := by
    intro pin
    by_cases h100 : Is100 strap l
    · simp only [h100, if_true, and_true, Levels.drive_apply]
    · simp only [h100, if_false, and_false]
  have hkept : ∀ pin, pin ≠ baset_rst_n → pin ≠ spe_rst_n → r.levels pin = (powerUp hw b).levels pin := by
    intro pin h1 h2
    rw [hlevels, Levels.drive_ne _ _ h2, Levels.drive_ne _ _ h1]
  constructor
  · rw [hrail, hrail, hlevels]
    exact ⟨rfl, rfl⟩
  · rw [hrail, hkept _ (by decide) (by decide)]
    exact hio
  · rw [hrail, hkept _ (by decide) (by decide), hcore]
    by_cases h100 : Is100 strap l
    · simp [h100]
    · simp [h100]
  · intro pin hpin
    obtain ⟨h1, h2, h3⟩ := hled pin hpin
    rw [hrail, if_neg fun h => h3 h.1, hkept pin h1 h2]
    exact hleds pin hpin

theorem initPHYs_spec {strap : Iface → BitVec 5} {b : Board} {l : Layout} (h : Cold b l)
    (hpins : Pinned strap l (if Is100 strap l then b.levels.drive pwren_1v0 false else b.levels)) :
    Booted strap l (initPHYs strap b) := by
  obtain ⟨hreturn, hspe, hother, hrail, hspeed⟩ := @initSPEPHY_spec strap b l (h.bus .spe) h.gig
  have hfresh : Fresh ((initSPEPHY strap b).1.bus .baset) (l .baset) := by
    rw [hother]
    exact h.bus .baset
  obtain ⟨hreturn', hbaset, hkept, hrail', hspeed'⟩ := @initBaseTPHY_spec strap _ _ hfresh
  unfold initPHYs
  dsimp only
  -- from here on only what the two calls return matters
  generalize initSPEPHY strap b = s at *
  generalize initBaseTPHY strap s.1 = t at *
  rw [← hrail] at hpins
  rw [← hkept] at hspe
  rw [← hrail'] at hpins
  rw [hspeed] at hbaset hspeed'
  have hsettled (hv : vendor strap .spe (l .spe) = 0x80028) (hout : outcome strap l = .polling ↔
      vendor strap .baset (l .baset) = 0x885) : ∀ i, Holds (t.1.bus i) (configured strap l i)
    | .spe => hspe
    | .baset => by
      have hslow : decide (IsGig strap l) = false ↔ ¬ IsGig strap l := decide_eq_false_iff_not
      have hif := and_congr hout hslow.symm
      rw [show configured strap l .baset = _ from if_congr hif rfl rfl]
      exact hbaset
  by_cases hv : vendor strap .spe (l .spe) = 0x80028
  · rw [if_neg (show ¬ (!s.2) = true by rw [hreturn.mpr hv]; decide)]
    have hout : outcome strap l =
        if vendor strap .baset (l .baset) ≠ 0x885 then .hung .baset else .polling := by
      rw [outcome, if_neg (not_not.mpr hv)]
    have hholds : ∀ i, Holds (t.1.bus i) (configured strap l i) := by
      apply hsettled hv
      rw [hout]
      split
      · next hv' => exact iff_of_false (by decide) hv'
      · next hv' => exact iff_of_true rfl (not_not.mp hv')
    have hstatus : (if !t.2 then (t.1, Status.hung .baset) else (t.1, .polling)) =
        (t.1, outcome strap l) := by
      rw [hout]
      cases ht : t.2 with
      | true => rw [if_neg (not_not.mpr (hreturn'.mp ht))]; rfl
      | false => rw [if_pos fun hv' => Bool.noConfusion (ht.symm.trans (hreturn'.mpr hv'))]; rfl
    rw [hstatus]
    exact ⟨rfl, hspeed', hpins, fun i => (holds_regs (hholds i)).1, fun i => (holds_regs (hholds i)).2,
      fun _ => hholds⟩
  · have hout : outcome strap l = .hung .spe := by rw [outcome, if_pos hv]
    rw [if_pos (show (!s.2) = true by
      rw [Bool.eq_false_iff.mpr (mt hreturn.mp hv)]; rfl)]
    have hfresh' : Fresh (s.1.bus .baset) (configured strap l .baset) := by
      rw [configured, hout, if_neg fun h => Status.noConfusion h.1]
      exact hfresh
    have hspe' : Holds (s.1.bus .spe) (configured strap l .spe) := by
      rw [← hkept]
      exact hspe
    refine ⟨hout.symm, hspeed, hrail' ▸ hpins, ?_, ?_, fun h => Status.noConfusion (hout.symm.trans h)⟩
    · rintro (_ | _)
      · exact (holds_regs hspe').1
      · exact (fresh_regs hfresh').1
    · rintro (_ | _)
      · exact (holds_regs hspe').2
      · exact (fresh_regs hfresh').2

theorem released_cold (hw : Hardware) (samples : List Bool) {b : Board} {l : Layout} (h : Cold b l) :
    Cold (releaseReset (waitPgood samples (powerUp hw b)).1) l := by
  obtain ⟨hbus, hgig, -⟩ := released_frame hw samples b
  refine ⟨fun i => ?_, hgig.trans h.gig⟩
  rw [hbus]
  exact h.bus i

/-- **Bring-up, bit by bit, is bring-up on registers.** Once PGOOD is high, and
whatever the PHYs hold, `main` ends up in the loop that `outcome` says; the
registers become `configured` and no others change; the 1.0 V rail is off just
for a DP83TC814; and no interface ever fights its PHY for the line. -/
theorem boot_configures (strap : Iface → BitVec 5) (hw : Hardware) (samples : List Bool)
    (hgood : true ∈ samples) (b : Board) (l : Layout) (h : Cold b l) :
    Booted strap l (boot strap hw samples b) := by
  rw [boot_released strap hw samples b hgood]
  exact initPHYs_spec (released_cold hw samples h) (released_pinned strap l hw samples b)

/-- A PHY with these identifiers. -/
def phyStore (id1 id2 : BitVec 16) : Store :=
  ⟨fun r => if r = 2 then id1 else if r = 3 then id2 else 0, fun _ _ => 0⟩

/-- A DP83TC814 and a KSZ9031RNX. -/
def layout100 : Layout
  | .spe => phyStore 0x2000 0xa261
  | .baset => phyStore 0x0022 0x1622

def cold100 : Board :=
  ⟨fun _ => false,
    fun i => fresh false false false 0 ⟨(layout100 i).basic, 0, fun _ => 0, (layout100 i).mmd⟩,
    false, []⟩

theorem boot_configures_100 :
    (boot (fun _ => 0) ⟨0, 0, 0, 0, 0⟩ [false, true] cold100).2 = .polling ∧
      ((boot (fun _ => 0) ⟨0, 0, 0, 0, 0⟩ [false, true] cold100).1.bus .baset).phy.regs.toStore.basic 4
        = 0x0101 := by
  have h := boot_configures (fun _ => 0) ⟨0, 0, 0, 0, 0⟩ [false, true] (by decide) cold100 layout100
    ⟨fun i => ⟨_, _, _, _, _, rfl, rfl⟩, rfl⟩
  rw [h.status, h.regs]
  decide

end DevBoards.Converter
