import DevBoards.Converter.Firmware

/-!
# The order of power, reset and management

What the media converter does to its PHYs is watched through `trace`. They come
out of reset 65 ms after power is good and are spoken to 1 ms after that, and
nothing that follows takes the power or the reset back, but for the rail that a
100 Mbps PHY does not need.

* `Settled`: all that happens once the PHYs run; `Passive`: all that happens
  once both are set up.
* `startup_sequenced`: each operation of a run is in its place.
-/
namespace DevBoards.Converter
open Mdio

structure Watch where
  /-- The level each pin was last driven to. -/
  driven : Pin → Option Bool
  /-- Ticks slept since `pgood_in` was read high. -/
  good : Option Nat
  /-- Ticks slept since both PHYs are out of reset. -/
  running : Option Nat

namespace Watch

def start : Watch := ⟨fun _ => none, none, none⟩

def drive (pin : Pin) (level : Bool) (w : Watch) : Watch :=
  let driven := Function.update w.driven pin (some level)
  let out := driven baset_rst_n = some true ∧ driven spe_rst_n = some true
  { w with driven := driven, running := if out then some (w.running.getD 0) else none }

theorem drive_running (pin : Pin) (level : Bool) (w : Watch)
    (hbaset : (w.drive pin level).driven baset_rst_n = some true)
    (hspe : (w.drive pin level).driven spe_rst_n = some true) :
    (w.drive pin level).running = some (w.running.getD 0) :=
  if_pos ⟨hbaset, hspe⟩

/-- Both resets are held low. -/
structure Held (w : Watch) : Prop where
  baset : w.driven baset_rst_n = some false
  spe : w.driven spe_rst_n = some false

/-- Both rails are on. -/
structure Powered (w : Watch) : Prop where
  core : w.driven pwren_1v0 = some true
  io : w.driven pwren_1v2 = some true

/-- Power has been good for 65 ms. -/
def Stable (w : Watch) : Prop := ∃ t, w.good = some t ∧ 650 ≤ t

/-- The PHYs have been out of reset for 1 ms. -/
def Ready (w : Watch) : Prop := ∃ t, w.running = some t ∧ 10 ≤ t

end Watch

def watch : Machine Watch Op Unit where
  step w op := (match op with
    | .drive pin level => w.drive pin level
    | .pgood level => { w with good := if level then some (w.good.getD 0) else none }
    | .sleep ticks =>
      { w with good := w.good.map (· + ticks), running := w.running.map (· + ticks) }
    | .construct _ | .access .. | .log _ => w, ())

def IsReset (pin : Pin) : Prop := pin = baset_rst_n ∨ pin = spe_rst_n

/-- Where an operation may stand. -/
def InPlace (w : Watch) : Op → Prop
  | .drive pin true => IsReset pin → w.Powered ∧ w.Stable
  | .drive pin false =>
    (IsReset pin → w.driven pin ≠ some true) ∧ pin ≠ pwren_1v2 ∧ (pin = pwren_1v0 → w.Ready)
  | .pgood _ => w.Held ∧ w.Powered
  | .construct _ | .access .. => w.Ready
  | .sleep _ | .log _ => True

/-! ## Operations added to the trace -/

/-- Only such operations happen from one board to the other. -/
def Adds (P : Op → Prop) (b b' : Board) : Prop :=
  ∃ ops, b'.trace = b.trace ++ ops ∧ ∀ op ∈ ops, P op

section Adds
variable {P : Op → Prop} {b c d : Board}

theorem Adds.of_trace (h : c.trace = b.trace) : Adds P b c :=
  ⟨[], by rw [h, List.append_nil], fun _ hop => absurd hop List.not_mem_nil⟩

theorem Adds.refl : Adds P b b := .of_trace rfl

theorem Adds.trans (hbc : Adds P b c) (hcd : Adds P c d) : Adds P b d := by
  obtain ⟨ops, hc, hops⟩ := hbc
  obtain ⟨ops', hd, hops'⟩ := hcd
  refine ⟨ops ++ ops', by rw [hd, hc, List.append_assoc], ?_⟩
  intro op hop
  rcases List.mem_append.mp hop with hop | hop
  · exact hops op hop
  · exact hops' op hop

theorem Adds.one {o : Op} (h : c.trace = b.trace ++ [o]) (hop : P o) : Adds P b c :=
  ⟨[o], h, by simpa using hop⟩

theorem Adds.mono {Q : Op → Prop} (h : Adds P b c) (hPQ : ∀ op, P op → Q op) : Adds Q b c := by
  obtain ⟨ops, hc, hops⟩ := h
  exact ⟨ops, hc, fun op hop => hPQ op (hops op hop)⟩

theorem Adds.ite {m : Prop} [Decidable m] (hno : Adds P b c) (hyes : Adds P b d) :
    Adds P b (if m then d else c) := by
  split
  · exact hyes
  · exact hno

/-- A line may be logged anywhere. -/
class Logs (P : Op → Prop) : Prop where
  log : ∀ e, P (.log e)

/-- What comes before a line is in order, so it is with the line. -/
theorem Adds.log [Logs P] (h : Adds P b c) (e : Entry) : Adds P b (c.log e) :=
  h.trans (.one rfl (Logs.log e))

theorem Adds.print [Logs P] (h : Adds P b c) (format : String) (args : List Arg) :
    Adds P b (c.print format args) :=
  h.log _

theorem Adds.become (h : Adds P b c) (i : Iface) (st : Store) : Adds P b (c.become i st) :=
  h.trans (.of_trace rfl)

end Adds

/-- What is done once the PHYs run. -/
def Settled : Op → Prop
  | .drive pin level => pin = pwren_1v0 ∧ level = false
  | .construct _ | .access .. | .log _ => True
  | .pgood _ | .sleep _ => False

instance : Logs Settled := ⟨fun _ => trivial⟩

section Settled
variable (strap : Iface → BitVec 5) {b c : Board}

theorem Adds.access (h : Adds Settled b c) (i : Iface) (call : MmdCall) :
    Adds Settled b (c.access strap i call).2 :=
  h.trans (.one (o := .access i call) rfl trivial)

theorem Adds.construct (h : Adds Settled b c) (i : Iface) : Adds Settled b (c.construct strap i) :=
  h.trans (.one (o := .construct i) rfl trivial)

theorem Adds.rail (h : Adds Settled b c) : Adds Settled b (c.drive pwren_1v0 false) :=
  h.trans (.one (o := .drive pwren_1v0 false) rfl ⟨rfl, rfl⟩)

theorem Adds.speed (h : Adds Settled b c) (gig : Bool) :
    Adds Settled b { c with speedIsGig := gig } :=
  h.trans (.of_trace rfl)

theorem initDP83TC814_adds (id2 : BitVec 16) (h : Adds Settled b c) :
    Adds Settled b (initDP83TC814 strap id2 c) := by
  have hoff := ((h.print "Detected DP83TC814 stepping %d (100base-T1)\n" [hex (stepping id2)]).print
    "Turning off 1.0V power rail as it's not needed for this PHY\n" []).rail.speed false
  have hled := hoff.access strap .spe (.writeMMD PHY_ADDR_SPE 0x1f 0x451 0x9)
  have hread := hled.access strap .spe (.readMMD PHY_ADDR_SPE 0x1 0x834)
  unfold initDP83TC814
  dsimp only
  split
  · exact hread.print _ _
  · exact hread.print _ _

theorem identify_adds (i : Iface) (phyaddr : BitVec 8) (h : Adds Settled b c) :
    Adds Settled b (identify strap i phyaddr c).2.2 := by
  have hid1 := (h.construct strap i).access strap i (.read phyaddr 0x02)
  exact hid1.access strap i (.read phyaddr 0x03)

theorem initSPEPHY_adds (h : Adds Settled b c) : Adds Settled b (initSPEPHY strap c).1 := by
  have hid := identify_adds strap .spe PHY_ADDR_SPE (h.print "Initializing SPE PHY\n" [])
  unfold initSPEPHY setupSPEPHY
  dsimp only
  split
  · exact hid.log _
  · split
    · exact initDP83TC814_adds strap _ hid
    · split
      · exact (hid.print _ _).speed true
      · exact hid.log _

theorem advertise100_adds (h : Adds Settled b c) : Adds Settled b (advertise100 strap c) :=
  (((h.print _ _).access strap .baset _).access strap .baset _).access strap .baset _

theorem initBaseTPHY_adds (h : Adds Settled b c) : Adds Settled b (initBaseTPHY strap c).1 := by
  have hid := identify_adds strap .baset PHY_ADDR_BASET (h.print "Initializing BaseT PHY\n" [])
  unfold initBaseTPHY setupBaseTPHY
  dsimp only
  split
  · exact hid.log _
  · have hmodel := fun m [Decidable m] e e' => Adds.ite (m := m) (hid.log e) (hid.log e')
    exact (hmodel ..).ite (advertise100_adds strap (hmodel ..))

end Settled

/-- A line, or an access that only reads. -/
def Passive : Op → Prop
  | .access _ (.read ..) | .access _ (.readMMD ..) | .log _ => True
  | _ => False

theorem Passive.settled {op : Op} (h : Passive op) : Settled op := by
  cases op with
  | access i c => exact trivial
  | log e => exact trivial
  | drive pin level => exact absurd h id
  | pgood level => exact absurd h id
  | sleep ticks => exact absurd h id
  | construct i => exact absurd h id

instance : Logs Passive := ⟨fun _ => trivial⟩

section Passive
variable (strap : Iface → BitVec 5) {b c : Board}

theorem Adds.read (h : Adds Passive b c) (i : Iface) (call : MmdCall)
    (hcall : Passive (.access i call)) : Adds Passive b (c.access strap i call).2 :=
  h.trans (.one (o := .access i call) rfl hcall)

theorem flag_adds (v mask : BitVec 16) (set clear : String) (h : Adds Passive b c) :
    Adds Passive b (flag v mask set clear c) := by
  unfold flag
  split
  · exact h.print _ _
  · exact h.print _ _

theorem dump_adds (reg : BitVec 16) (format : String) (st : Store) (h : Adds Passive b c) :
    Adds Passive b (dump strap reg format st c).2 :=
  ((h.become .spe st).read strap .spe (.readMMD PHY_ADDR_SPE 0x1f reg) trivial).print _ _

theorem printSPEStatus_adds (st : SpeReg → Store) (h : Adds Passive b c) :
    Adds Passive b (printSPEStatus strap st c) := by
  unfold printSPEStatus
  split
  · exact h.print _ _
  · exact dump_adds strap _ _ _ (dump_adds strap _ _ _ (dump_adds strap _ _ _
      (dump_adds strap _ _ _ (dump_adds strap _ _ _ (flag_adds _ _ _ _ (flag_adds _ _ _ _
        (flag_adds _ _ _ _ (dump_adds strap _ _ _ h))))))))

theorem pollBaset_adds (p : Poll) (s : St) (h : Adds Passive b s.board) :
    Adds Passive b (pollBaset strap p s).board := by
  have hstatus := (h.become .baset p.baset).read strap .baset (.read PHY_ADDR_BASET 0x01) trivial
  unfold pollBaset
  dsimp only
  have hup (m : Prop) [Decidable m] :=
    Adds.ite (m := m) hstatus (hstatus.print "Base-T link is up\n" [])
  exact (hup _).ite ((hup _).print "Base-T link is down\n" [])

theorem pollSpe_adds (p : Poll) (s : St) (h : Adds Passive b s.board) :
    Adds Passive b (pollSpe strap p s).board := by
  have hstatus := (h.become .spe p.spe).read strap .spe (.read PHY_ADDR_SPE 0x01) trivial
  unfold pollSpe
  dsimp only
  have hup (m : Prop) [Decidable m] := Adds.ite (m := m) hstatus
    (printSPEStatus_adds strap p.print (hstatus.print "SPE link is up\n" []))
  exact (hup _).ite (printSPEStatus_adds strap p.print ((hup _).print "SPE link is down\n" []))

theorem loop_adds (polls : List Poll) (s : St) :
    Adds Passive s.board ((loop strap).final s polls).board :=
  (loop strap).final_inv (Q := fun _ _ => True) (fun s' => Adds Passive s.board s'.board)
    (fun s' p h _ => pollSpe_adds strap p _ (pollBaset_adds strap p s' h)) polls s .refl
    ((loop strap).along_of_forall (fun _ _ _ => trivial) s)

end Passive

/-! ## The watch -/

/-- Both PHYs are out of reset, and ready. -/
structure Watch.Up (w : Watch) : Prop where
  baset : w.driven baset_rst_n = some true
  spe : w.driven spe_rst_n = some true
  ready : w.Ready

theorem settled_step {op : Op} (h : Settled op) {w : Watch} (hw : w.Up) :
    InPlace w op ∧ (watch.step w op).1.Up := by
  cases op with
  | drive pin level =>
    obtain ⟨rfl, rfl⟩ := h
    have hbaset : (w.drive pwren_1v0 false).driven baset_rst_n = some true := hw.baset
    have hspe : (w.drive pwren_1v0 false).driven spe_rst_n = some true := hw.spe
    obtain ⟨t, hrunning, ht⟩ := hw.ready
    refine ⟨⟨?_, by decide, fun _ => hw.ready⟩, hbaset, hspe, t, ?_, ht⟩
    · rintro (hreset | hreset)
      · exact absurd hreset (by decide)
      · exact absurd hreset (by decide)
    · exact (w.drive_running _ _ hbaset hspe).trans (by rw [hrunning, Option.getD_some])
  | pgood level => exact absurd h id
  | sleep ticks => exact absurd h id
  | construct i => exact ⟨hw.ready, hw⟩
  | access i c => exact ⟨hw.ready, hw⟩
  | log e => exact ⟨trivial, hw⟩

/-- From one board to the other everything is in its place, and the watch goes
from `w` to `w'`. -/
def Goes (w : Watch) (b b' : Board) (w' : Watch) : Prop :=
  ∃ ops, b'.trace = b.trace ++ ops ∧ watch.Along InPlace w ops ∧ watch.final w ops = w'

theorem Goes.trans {w w' w'' : Watch} {b c d : Board} (h : Goes w b c w') (h' : Goes w' c d w'') :
    Goes w b d w'' := by
  obtain ⟨ops, hc, hops, rfl⟩ := h
  obtain ⟨ops', hd, hops', rfl⟩ := h'
  refine ⟨ops ++ ops', by rw [hd, hc, List.append_assoc], ?_, watch.final_append ..⟩
  exact (watch.along_append ..).mpr ⟨hops, hops'⟩

theorem Goes.one {w : Watch} {b c : Board} {o : Op} (h : c.trace = b.trace ++ [o])
    (hop : InPlace w o) : Goes w b c (watch.step w o).1 :=
  ⟨[o], h, ⟨hop, trivial⟩, rfl⟩

theorem settled_goes {w : Watch} {b b' : Board} (h : Adds Settled b b') (hw : w.Up) :
    ∃ w', Goes w b b' w' ∧ w'.Up := by
  obtain ⟨ops, hb', hops⟩ := h
  have hstep : ∀ w : Watch, ∀ op ∈ ops, w.Up → InPlace w op ∧ (watch.step w op).1.Up :=
    fun w op hop hw => settled_step (hops op hop) hw
  refine ⟨_, ⟨ops, hb', watch.along_of_inv Watch.Up hstep w hw, rfl⟩, ?_⟩
  exact watch.final_inv (Q := fun _ op => op ∈ ops) Watch.Up (fun w op hw hop => (hstep w op hop hw).2)
    ops w hw (watch.along_of_forall (fun _ _ hop => hop) w)

theorem logs_along (es : List Entry) (w : Watch) :
    watch.Along InPlace w (es.map Op.log) ∧ watch.final w (es.map Op.log) = w := by
  induction es with
  | nil => exact ⟨trivial, rfl⟩
  | cons e es ih => exact ⟨⟨trivial, ih.1⟩, ih.2⟩

def powerOps : List Op :=
  [.drive baset_rst_n false, .drive spe_rst_n false,
    .log ⟨.normal, "Turning on 1.0 and 1.2V power rails\n", []⟩,
    .drive pwren_1v0 true, .drive pwren_1v2 true] ++ gpio_led.map (Op.drive · false)

theorem logs_trace (es : List Entry) (b : Board) :
    (es.foldl (fun b e => b.log e) b).trace = b.trace ++ es.map Op.log := by
  induction es generalizing b with
  | nil => exact (List.append_nil _).symm
  | cons e es ih =>
    rw [List.foldl_cons, ih, List.map_cons]
    exact List.append_assoc ..

theorem powerUp_trace (hw : Hardware) (b : Board) : (powerUp hw b).trace = b.trace ++
    (((detectHardware hw.IDCODE hw.F_ID hw.uid).1.map Line.entry).map Op.log ++ powerOps) := by
  rw [← List.append_assoc, ← logs_trace]
  simp only [powerUp, initLEDs, initPower, gpio_led, powerOps, List.foldl_cons, List.foldl_nil,
    Board.drive, Board.print, Board.log, Board.emit, List.append_assoc]
  rfl

theorem powerUp_goes (hw : Hardware) (b : Board) :
    ∃ w, Goes .start b (powerUp hw b) w ∧ w.Held ∧ w.Powered := by
  obtain ⟨hlogs, hstay⟩ :=
    logs_along ((detectHardware hw.IDCODE hw.F_ID hw.uid).1.map Line.entry) .start
  have hpower : watch.Along InPlace .start powerOps := by
    simp [powerOps, gpio_led, Machine.Along, watch, InPlace, Watch.drive, Watch.start, IsReset,
      baset_rst_n, spe_rst_n, pwren_1v0, pwren_1v2]
  refine ⟨watch.final .start powerOps, ⟨_, powerUp_trace hw b, ?_, ?_⟩, ⟨rfl, rfl⟩, ⟨rfl, rfl⟩⟩
  · exact (watch.along_append ..).mpr ⟨hlogs, hstay.symm ▸ hpower⟩
  · rw [watch.final_append, hstay]

theorem waitPgood_found (samples : List Bool) (b : Board) :
    (waitPgood samples b).2 = true ↔ true ∈ samples := by
  induction samples generalizing b with
  | nil => simp [waitPgood]
  | cons level samples ih => cases level <;> simp [waitPgood, ih]

theorem waitPgood_goes (samples : List Bool) (b : Board) {w : Watch} (hheld : w.Held)
    (hpowered : w.Powered) :
    ∃ w', Goes w b (waitPgood samples b).1 w' ∧ w'.Held ∧ w'.Powered ∧
      (true ∈ samples → ∃ t, w'.good = some t) := by
  rw [← waitPgood_found samples b]
  induction samples generalizing b w with
  | nil => exact ⟨w, ⟨[], (List.append_nil _).symm, trivial, rfl⟩, hheld, hpowered, nofun⟩
  | cons level samples ih =>
    have hone : Goes w b (b.emit (.pgood level)) _ := .one rfl ⟨hheld, hpowered⟩
    have hheld' : (watch.step w (.pgood level)).1.Held := ⟨hheld.baset, hheld.spe⟩
    have hpowered' : (watch.step w (.pgood level)).1.Powered := ⟨hpowered.core, hpowered.io⟩
    unfold waitPgood
    dsimp only
    cases level with
    | true => exact ⟨_, hone, hheld', hpowered', fun _ => ⟨_, rfl⟩⟩
    | false =>
      obtain ⟨w', hgoes, hrest⟩ := ih (b.emit (.pgood false)) hheld' hpowered'
      exact ⟨w', hone.trans hgoes, hrest⟩

theorem releaseReset_goes (b : Board) {w : Watch} (hpowered : w.Powered) {t : Nat}
    (hgood : w.good = some t) : ∃ w', Goes w b (releaseReset b) w' ∧ w'.Up := by
  let w1 : Watch := (watch.step w (.sleep 650)).1
  let w2 : Watch := w1.drive baset_rst_n true
  let w3 : Watch := w2.drive spe_rst_n true
  have hgood1 : w1.good = some (t + 650) := congrArg (Option.map (· + 650)) hgood
  have hrelease : w1.Powered ∧ w1.Stable :=
    ⟨⟨hpowered.core, hpowered.io⟩, _, hgood1, Nat.le_add_left ..⟩
  have hrelease' : w2.Powered ∧ w2.Stable :=
    ⟨⟨hpowered.core, hpowered.io⟩, _, hgood1, Nat.le_add_left ..⟩
  let b1 := b.sleep 650
  let b2 := b1.print "Power good, releasing PHY reset\n" []
  let b3 := b2.drive baset_rst_n true
  let b4 := b3.drive spe_rst_n true
  have h1 : Goes w b b1 w1 := .one rfl trivial
  have h2 : Goes w1 b1 b2 w1 := .one (o := .log _) rfl trivial
  have h3 : Goes w1 b2 b3 w2 := .one (o := .drive baset_rst_n true) rfl fun _ => hrelease
  have h4 : Goes w2 b3 b4 w3 := .one (o := .drive spe_rst_n true) rfl fun _ => hrelease'
  have h5 : Goes w3 b4 (b4.sleep 10) (watch.step w3 (.sleep 10)).1 := .one rfl trivial
  have hrunning : w3.running = some (w2.running.getD 0) := w2.drive_running _ _ rfl rfl
  refine ⟨_, (((h1.trans h2).trans h3).trans h4).trans h5, rfl, rfl, w2.running.getD 0 + 10, ?_,
    Nat.le_add_left ..⟩
  exact congrArg (Option.map (· + 10)) hrunning

theorem initPHYs_adds (strap : Iface → BitVec 5) (b : Board) :
    Adds Settled b (initPHYs strap b).1 := by
  have hspe := initSPEPHY_adds strap (b := b) .refl
  unfold initPHYs
  dsimp only
  split
  · exact hspe
  · have hbaset := initBaseTPHY_adds strap hspe
    split
    · exact hbaset
    · exact hbaset

theorem boot_released (strap : Iface → BitVec 5) (hw : Hardware) (samples : List Bool) (b : Board)
    (hgood : true ∈ samples) :
    boot strap hw samples b = initPHYs strap (releaseReset (waitPgood samples (powerUp hw b)).1) := by
  have hfound := (waitPgood_found samples (powerUp hw b)).mpr hgood
  unfold boot
  dsimp only
  exact if_neg (by rw [hfound]; decide)

/-- Once the PHYs run, whatever they turn out to be. -/
theorem main_adds (strap : Iface → BitVec 5) (hw : Hardware) (samples : List Bool)
    (polls : List Poll) (b : Board) (hgood : true ∈ samples) :
    Adds Settled (releaseReset (waitPgood samples (powerUp hw b)).1)
      (main strap hw samples polls b).1 := by
  have hboot := initPHYs_adds strap (releaseReset (waitPgood samples (powerUp hw b)).1)
  rw [← boot_released strap hw samples b hgood] at hboot
  unfold main
  dsimp only
  split
  · exact hboot.trans ((loop_adds strap polls (St.start _)).mono fun _ => Passive.settled)
  · exact hboot

/-- **Power, then reset, then management.** Over any run, on any samples of
`pgood_in`, any PHYs and any polls: PGOOD is sampled with both rails on and both
PHYs in reset; a PHY leaves reset 65 ms after PGOOD was read high at the
earliest, and never goes back; the interfaces are built and used, and the 1.0 V
rail is turned off, 1 ms after both have left it at the earliest; the 1.2 V rail
is never turned off. -/
theorem startup_sequenced (strap : Iface → BitVec 5) (hw : Hardware) (samples : List Bool)
    (polls : List Poll) (b : Board) :
    ∃ ops, (main strap hw samples polls b).1.trace = b.trace ++ ops ∧
      watch.Along InPlace .start ops ∧
      (true ∉ samples → (watch.final .start ops).Held) ∧
      (true ∈ samples → (watch.final .start ops).Up) := by
  obtain ⟨w1, hpower, hheld1, hpowered1⟩ := powerUp_goes hw b
  obtain ⟨w2, hwait, hheld, hpowered, hfound⟩ :=
    waitPgood_goes samples (powerUp hw b) hheld1 hpowered1
  have hgoes := hpower.trans hwait
  by_cases hgood : true ∈ samples
  · obtain ⟨t, ht⟩ := hfound hgood
    obtain ⟨w3, hrelease, hup⟩ := releaseReset_goes (waitPgood samples (powerUp hw b)).1 hpowered ht
    obtain ⟨w4, hsettled, hup⟩ := settled_goes (main_adds strap hw samples polls b hgood) hup
    obtain ⟨ops, htrace, halong, rfl⟩ := (hgoes.trans hrelease).trans hsettled
    exact ⟨ops, htrace, halong, fun h => absurd hgood h, fun _ => hup⟩
  · have hpg : (waitPgood samples (powerUp hw b)).2 = false :=
      Bool.eq_false_iff.mpr (mt (waitPgood_found samples (powerUp hw b)).mp hgood)
    have hmain : (main strap hw samples polls b).1 = (waitPgood samples (powerUp hw b)).1 := by
      simp [main, boot, hpg]
    obtain ⟨ops, htrace, halong, rfl⟩ := hmain ▸ hgoes
    exact ⟨ops, htrace, halong, fun _ => hheld, fun h => absurd h hgood⟩

end DevBoards.Converter
