import Mathlib.Data.List.Destutter
import DevBoards.Converter.Boot

/-!
# What polling reports

The polling loop of the media converter in terms of the registers of the PHYs,
which may be different ones at every access. `report` is the log of the loop on
those registers.

* `loop_step`: one turn, bit by bit, is a step of `report`.
* `events_report`: the lines about one link are the changes of its link bit.
* `passive_holds`: an access that only reads leaves every register as it was.
* `links_logged`: the log of a run of `main`, its accesses, and what it leaves
  in the PHYs.
-/
namespace DevBoards.Converter
open Mdio

variable (strap : Iface → BitVec 5)

/-- What a read of a register of device 0x1f at address 0 gives. -/
def seenMmd (i : Iface) (st : Store) (reg : BitVec 16) : BitVec 16 :=
  if strap i = 0 then st.mmd 0x1f reg else 0xffff

/-- The link bit of the status register. -/
def level (i : Iface) (st : Store) : Bool := linkBit (seen strap i st 1)

def linkLine (i : Iface) (up : Bool) : Entry :=
  ⟨.normal, match i, up with
    | .baset, true => "Base-T link is up\n"
    | .baset, false => "Base-T link is down\n"
    | .spe, true => "SPE link is up\n"
    | .spe, false => "SPE link is down\n", []⟩

def flagLine (v mask : BitVec 16) (set clear : String) : Entry :=
  ⟨.normal, if v &&& mask != 0 then set else clear, []⟩

/-- The value of one register, at the time it is read. -/
def regLine (reg : BitVec 16) (format : String) (st : Store) : Entry :=
  ⟨.normal, format, [hex (seenMmd strap .spe st reg)]⟩

/-- The lines of `PrintSPEStatus`. -/
def statusLines (gig : Bool) (st : SpeReg → Store) : List Entry :=
  if gig then [⟨.normal, "TODO print status\n", []⟩]
  else
    let physts := seenMmd strap .spe (st .physts) 0x10
    [regLine strap 0x10 "PHYSTS = 0x%04x\n" (st .physts),
      flagLine physts 0x0400 "Channel OK\n" "Channel not OK\n",
      flagLine physts 0x0200 "Scrambler locked\n" "Scrambler unlocked\n",
      flagLine physts 0x0001 "Link up\n" "Link down\n",
      regLine strap 0x11 "PHYSCR = 0x%04x\n" (st .physcr),
      regLine strap 0x15 "RECR = 0x%04x\n" (st .recr),
      regLine strap 0x18 "MISR3 = 0x%04x\n" (st .misr3),
      regLine strap 0x133 "R133 = 0x%04x\n" (st .r133),
      regLine strap 0x310 "TDR_TC1 = 0x%04x\n" (st .tdrtc1)]

/-- The registers at the access to the status register. -/
def Poll.status (p : Poll) : Iface → Store
  | .baset => p.baset
  | .spe => p.spe

/-- The loop on the link bits alone; its outputs are the lines of the turns. -/
def report (gig : Bool) : Machine (Iface → Bool) Poll (List Entry) where
  step up p :=
    let up' := fun i => level strap i (p.status i)
    (up',
      (if up' .baset = up .baset then [] else [linkLine .baset (up' .baset)]) ++
        if up' .spe = up .spe then [] else linkLine .spe (up' .spe) :: statusLines strap gig p.print)

/-! ## One turn -/

/-- **An access that only reads** leaves every register as it was. -/
theorem passive_holds {i : Iface} {call : MmdCall} (hpassive : Passive (.access i call)) {b : Board}
    {st : Store} (h : Holds (b.bus i) st) (hcall : call.Valid (strap i)) :
    Holds ((b.access strap i call).2.bus i) st := by
  have hstep : ((store (strap i)).step st call).1 = st := by
    cases call with
    | read phyaddr regid => rfl
    | readMMD phyaddr mmd regid => rfl
    | write phyaddr regid v => exact absurd hpassive id
    | writeMMD phyaddr mmd regid v => exact absurd hpassive id
  have hholds := (access_spec strap h call hcall).2
  rwa [hstep] at hholds

/-- From `b` to `b'` these lines are logged, the bus of `i` is used, and the PHY
there ends up with `st`, which nobody but itself has put there. -/
structure Reports (i : Iface) (b b' : Board) (es : List Entry) (st : Store) : Prop where
  entries : b'.entries = b.entries ++ es
  holds : Holds (b'.bus i) st
  other : ∀ j, j ≠ i → b'.bus j = b.bus j
  gig : b'.speedIsGig = b.speedIsGig

section Reports
variable {i : Iface} {b c d : Board} {es es' : List Entry} {st st' : Store}

theorem Reports.trans (h : Reports i b c es st) (h' : Reports i c d es' st') :
    Reports i b d (es ++ es') st' where
  entries := by rw [h'.entries, h.entries, List.append_assoc]
  holds := h'.holds
  other j hj := (h'.other j hj).trans (h.other j hj)
  gig := h'.gig.trans h.gig

theorem Reports.refl (h : Holds (b.bus i) st) : Reports i b b [] st :=
  ⟨(List.append_nil _).symm, h, fun _ _ => rfl, rfl⟩

theorem Reports.print (h : Reports i b c es st) (format : String) (args : List Arg) :
    Reports i b (c.print format args) (es ++ [⟨.normal, format, args⟩]) st := by
  refine h.trans ⟨?_, h.holds, fun _ _ => rfl, rfl⟩
  unfold Board.entries
  exact List.filterMap_append

/-- The PHY's registers change. -/
theorem Reports.become (h : Reports i b c es st) (st' : Store) :
    Reports i b (c.become i st') es st' := by
  obtain ⟨regs, ⟨n, hidle⟩, -⟩ := h.holds
  have hbus : (c.become i st').bus i = _ := Function.update_self ..
  have hone : Reports i c (c.become i st') [] st' := by
    refine ⟨(List.append_nil _).symm, ?_, fun j hj => Function.update_of_ne hj .., rfl⟩
    refine ⟨{ regs with basic := st'.basic, mmd := st'.mmd }, ⟨n, ?_⟩, rfl⟩
    rw [hbus]
    exact ⟨hidle.out, hidle.clk, hidle.clash, by rw [hidle.phy]⟩
  simpa using h.trans hone

theorem Reports.read (h : Reports i b c es st) (call : MmdCall)
    (hpassive : Passive (.access i call)) (hcall : call.Valid (strap i)) :
    Reports i b (c.access strap i call).2 es st := by
  have hone : Reports i c (c.access strap i call).2 [] st := by
    refine ⟨?_, passive_holds strap hpassive h.holds hcall, fun j hj => access_bus_ne c hj call, rfl⟩
    unfold Board.entries
    exact List.filterMap_append
  simpa using h.trans hone

/-- A line or none. -/
theorem Reports.ite {m : Prop} [Decidable m] (hno : Reports i b c es st)
    (hyes : Reports i b d es' st') :
    Reports i b (if m then d else c) (if m then es' else es) (if m then st' else st) := by
  split
  · exact hyes
  · exact hno

theorem flag_reports (h : Reports i b c es st) (v mask : BitVec 16) (set clear : String) :
    Reports i b (flag v mask set clear c) (es ++ [flagLine v mask set clear]) st := by
  unfold flag flagLine
  split
  · exact h.print set []
  · exact h.print clear []

theorem store_readMMD (st : Store) (reg : BitVec 16) :
    ((store (strap i)).step st (.readMMD 0 0x1f reg)).2.getD 0 = seenMmd strap i st reg := by
  have hdev : (0x1f : BitVec 16).setWidth 5 = (0x1f : BitVec 5) := by decide
  unfold store seenMmd
  dsimp only
  rw [hdev, Option.getD_some]
  exact if_congr eq_comm rfl rfl

theorem dump_reports (h : Reports .spe b c es st) (reg : BitVec 16) (format : String)
    (st' : Store) :
    (dump strap reg format st' c).1 = seenMmd strap .spe st' reg ∧
      Reports .spe b (dump strap reg format st' c).2 (es ++ [regLine strap reg format st']) st' := by
  have hvalid : (MmdCall.readMMD PHY_ADDR_SPE 0x1f reg).Valid (strap .spe) :=
    show (0x1f : BitVec 16).toNat < 32 by decide
  have hbecome := h.become st'
  have hvalue : ((c.become .spe st').access strap .spe (.readMMD PHY_ADDR_SPE 0x1f reg)).1 =
      seenMmd strap .spe st' reg :=
    (access_spec strap hbecome.holds _ hvalid).1.trans (store_readMMD strap st' reg)
  have hread := hbecome.read strap (.readMMD PHY_ADDR_SPE 0x1f reg) trivial hvalid
  unfold dump regLine
  dsimp only
  refine ⟨hvalue, ?_⟩
  rw [← hvalue]
  exact hread.print _ _

theorem print_reports (h : Reports .spe b c es st) (p : SpeReg → Store) :
    Reports .spe b (printSPEStatus strap p c) (es ++ statusLines strap c.speedIsGig p)
      (if c.speedIsGig then st else p .tdrtc1) := by
  unfold printSPEStatus statusLines
  cases c.speedIsGig with
  | true => exact h.print "TODO print status\n" []
  | false =>
    obtain ⟨hphysts, h0⟩ := dump_reports strap h 0x10 "PHYSTS = 0x%04x\n" (p .physts)
    simp only [Bool.false_eq_true, if_false, hphysts]
    have h1 := flag_reports (flag_reports (flag_reports h0 (seenMmd strap .spe (p .physts) 0x10) 0x0400
      "Channel OK\n" "Channel not OK\n") (seenMmd strap .spe (p .physts) 0x10) 0x0200
      "Scrambler locked\n" "Scrambler unlocked\n") (seenMmd strap .spe (p .physts) 0x10) 0x0001
      "Link up\n" "Link down\n"
    have h2 := (dump_reports strap h1 0x11 "PHYSCR = 0x%04x\n" (p .physcr)).2
    have h3 := (dump_reports strap h2 0x15 "RECR = 0x%04x\n" (p .recr)).2
    have h4 := (dump_reports strap h3 0x18 "MISR3 = 0x%04x\n" (p .misr3)).2
    have h5 := (dump_reports strap h4 0x133 "R133 = 0x%04x\n" (p .r133)).2
    have h6 := (dump_reports strap h5 0x310 "TDR_TC1 = 0x%04x\n" (p .tdrtc1)).2
    simpa only [List.append_assoc, List.cons_append, List.nil_append] using h6

/-- The registers change, and the status register is read. -/
theorem status_reports {phyaddr : BitVec 8} (ha : phyaddr = 0) (h : Holds (b.bus i) st)
    (st' : Store) :
    let status := (b.become i st').access strap i (.read phyaddr 0x01)
    linkBit status.1 = level strap i st' ∧ Reports i b status.2 [] st' := by
  subst ha
  have hbecome := (Reports.refl h).become st'
  have hread := access_read strap hbecome.holds (show (0x01 : BitVec 8).setWidth 5 = 1 from rfl)
    (by decide)
  refine ⟨congrArg linkBit hread.1, ?_⟩
  exact hbecome.read strap (.read 0 0x01) trivial fun _ => by decide

end Reports

theorem pollBaset_spec (p : Poll) (s : St) {st : Store} (h : Holds (s.board.bus .baset) st) :
    (pollBaset strap p s).baset_linkUp = level strap .baset p.baset ∧
      (pollBaset strap p s).spe_linkUp = s.spe_linkUp ∧
      Reports .baset s.board (pollBaset strap p s).board
        (if level strap .baset p.baset = s.baset_linkUp then []
          else [linkLine .baset (level strap .baset p.baset)]) p.baset := by
  obtain ⟨hup, hread⟩ := status_reports strap (show PHY_ADDR_BASET = 0 from rfl) h p.baset
  unfold pollBaset
  dsimp only
  rw [hup]
  refine ⟨rfl, rfl, ?_⟩
  cases level strap .baset p.baset with
  | true =>
    cases s.baset_linkUp with
    | true => exact hread
    | false => exact hread.print "Base-T link is up\n" []
  | false =>
    cases s.baset_linkUp with
    | true => exact hread.print "Base-T link is down\n" []
    | false => exact hread

theorem pollSpe_spec (p : Poll) (s : St) {st : Store} (h : Holds (s.board.bus .spe) st) :
    (pollSpe strap p s).spe_linkUp = level strap .spe p.spe ∧
      (pollSpe strap p s).baset_linkUp = s.baset_linkUp ∧
      ∃ st', (st' = p.spe ∨ st' = p.print .tdrtc1) ∧
        Reports .spe s.board (pollSpe strap p s).board
          (if level strap .spe p.spe = s.spe_linkUp then []
            else linkLine .spe (level strap .spe p.spe) ::
              statusLines strap s.board.speedIsGig p.print) st' := by
  obtain ⟨hup, hread⟩ := status_reports strap (show PHY_ADDR_SPE = 0 from rfl) h p.spe
  have hprint (format : String) := print_reports strap (hread.print format []) p.print
  have hleft (m : Prop) [Decidable m] : (if m then p.spe else p.print .tdrtc1) = p.spe ∨
      (if m then p.spe else p.print .tdrtc1) = p.print .tdrtc1 := by
    split
    · exact .inl rfl
    · exact .inr rfl
  unfold pollSpe
  dsimp only
  rw [hup]
  refine ⟨rfl, rfl, ?_⟩
  cases level strap .spe p.spe with
  | true =>
    cases s.spe_linkUp with
    | true => exact ⟨_, .inl rfl, hread⟩
    | false => exact ⟨_, hleft _, hprint "SPE link is up\n"⟩
  | false =>
    cases s.spe_linkUp with
    | true => exact ⟨_, hleft _, hprint "SPE link is down\n"⟩
    | false => exact ⟨_, .inl rfl, hread⟩

/-- Between turns: what the loop remembers, and that both buses are idle. -/
structure Follows (gig : Bool) (s : St) (up : Iface → Bool) : Prop where
  baset : s.baset_linkUp = up .baset
  spe : s.spe_linkUp = up .spe
  gig : s.board.speedIsGig = gig
  idle : ∀ i, ∃ st, Holds (s.board.bus i) st

/-- **One turn, bit by bit, is one on the link bits**. -/
theorem loop_step {gig : Bool} {s : St} {up : Iface → Bool} (h : Follows gig s up) (p : Poll) :
    let s' := ((loop strap).step s p).1
    Follows gig s' ((report strap gig).step up p).1 ∧
      s'.board.entries = s.board.entries ++ ((report strap gig).step up p).2 ∧
      Holds (s'.board.bus .baset) p.baset ∧
      (Holds (s'.board.bus .spe) p.spe ∨ Holds (s'.board.bus .spe) (p.print .tdrtc1)) := by
  obtain ⟨stb, hbaset⟩ := h.idle .baset
  obtain ⟨sts, hspe⟩ := h.idle .spe
  obtain ⟨hup, hkept, hreports⟩ := pollBaset_spec strap p s hbaset
  have hspe' : Holds ((pollBaset strap p s).board.bus .spe) sts := by
    rw [hreports.other .spe (by decide)]
    exact hspe
  obtain ⟨hup', hkept', st', hst', hreports'⟩ := pollSpe_spec strap p (pollBaset strap p s) hspe'
  have hbasetEnd : Holds ((pollSpe strap p (pollBaset strap p s)).board.bus .baset) p.baset := by
    rw [hreports'.other .baset (by decide)]
    exact hreports.holds
  refine ⟨⟨hkept'.trans hup, hup', (hreports'.gig.trans hreports.gig).trans h.gig, ?_⟩, ?_, hbasetEnd, ?_⟩
  · rintro (_ | _)
    · exact ⟨st', hreports'.holds⟩
    · exact ⟨_, hbasetEnd⟩
  · have hentries := hreports'.entries
    rw [hreports.entries, hkept, h.baset, h.spe, hreports.gig, h.gig, List.append_assoc] at hentries
    exact hentries
  · rcases hst' with rfl | rfl
    · exact .inl hreports'.holds
    · exact .inr hreports'.holds

theorem loop_run {gig : Bool} (polls : List Poll) {s : St} {up : Iface → Bool}
    (h : Follows gig s up) :
    Follows gig ((loop strap).final s polls) ((report strap gig).final up polls) ∧
      ((loop strap).final s polls).board.entries =
        s.board.entries ++ ((report strap gig).outs up polls).flatten := by
  induction polls generalizing s up with
  | nil => exact ⟨h, (List.append_nil _).symm⟩
  | cons p polls ih =>
    obtain ⟨hstep, hentries, -⟩ := loop_step strap h p
    obtain ⟨hrun, hrest⟩ := ih hstep
    refine ⟨hrun, ?_⟩
    rw [Machine.final_cons, hrest, hentries, Machine.outs_cons, List.flatten_cons,
      List.append_assoc]

/-! ## The lines about a link -/

/-- What a line says of the link of `i`, if it does. -/
def linkEvent? (i : Iface) (e : Entry) : Option Bool :=
  if e = linkLine i true then some true else if e = linkLine i false then some false else none

/-- What a log says of the link of `i`, line by line. -/
def linkEvents (i : Iface) (es : List Entry) : List Bool := es.filterMap (linkEvent? i)

theorem linkEvent_linkLine (i j : Iface) (up : Bool) :
    linkEvent? i (linkLine j up) = if i = j then some up else none := by
  cases i <;> cases j <;> cases up <;> rfl

/-- A line with another format says nothing of either link. -/
theorem linkEvent_other (i : Iface) (e : Entry) (h : ∀ j up, e.format ≠ (linkLine j up).format) :
    linkEvent? i e = none := by
  unfold linkEvent?
  rw [if_neg fun he => h i true (congrArg Entry.format he),
    if_neg fun he => h i false (congrArg Entry.format he)]

theorem linkEvents_statusLines (i : Iface) (gig : Bool) (st : SpeReg → Store) :
    linkEvents i (statusLines strap gig st) = [] := by
  have hreg (reg : BitVec 16) (format : String) (st : Store)
      (h : ∀ j up, format ≠ (linkLine j up).format) :
      linkEvent? i (regLine strap reg format st) = none := linkEvent_other i _ h
  have hflag (v mask : BitVec 16) (set clear : String) (hset : ∀ j up, set ≠ (linkLine j up).format)
      (hclear : ∀ j up, clear ≠ (linkLine j up).format) :
      linkEvent? i (flagLine v mask set clear) = none := by
    apply linkEvent_other
    unfold flagLine
    split
    · exact hset
    · exact hclear
  have hne {format : String} (h : format ∉ ["Base-T link is up\n", "Base-T link is down\n",
      "SPE link is up\n", "SPE link is down\n"]) : ∀ j up, format ≠ (linkLine j up).format := by
    simp only [List.mem_cons, List.not_mem_nil, or_false, not_or] at h
    rintro (_ | _) (_ | _)
    · exact h.2.2.2
    · exact h.2.2.1
    · exact h.2.1
    · exact h.1
  unfold linkEvents statusLines
  cases gig with
  | true => exact List.filterMap_eq_nil_iff.mpr (by simpa using linkEvent_other i _ (hne (by decide)))
  | false =>
    simp only [Bool.false_eq_true, if_false, List.filterMap_cons]
    rw [hreg _ _ _ (hne (by decide)), hflag _ _ _ _ (hne (by decide)) (hne (by decide)),
      hflag _ _ _ _ (hne (by decide)) (hne (by decide)),
      hflag _ _ _ _ (hne (by decide)) (hne (by decide)), hreg _ _ _ (hne (by decide)),
      hreg _ _ _ (hne (by decide)), hreg _ _ _ (hne (by decide)), hreg _ _ _ (hne (by decide)),
      hreg _ _ _ (hne (by decide))]
    rfl

/-- A line about the link of `j`, if something is the matter, and what follows it. -/
theorem linkEvents_ite (i j : Iface) (quiet : Prop) [Decidable quiet] (up : Bool) {es : List Entry}
    (h : linkEvents i es = []) :
    linkEvents i (if quiet then [] else linkLine j up :: es) =
      if i = j then if quiet then [] else [up] else [] := by
  unfold linkEvents at h ⊢
  by_cases hq : quiet
  · simp only [hq, if_true, ite_self]
    rfl
  · by_cases hij : i = j
    · simp only [hq, hij, if_false, if_true, List.filterMap_cons, linkEvent_linkLine, hij ▸ h]
    · simp only [hq, hij, if_false, List.filterMap_cons, linkEvent_linkLine, h]

theorem linkEvents_step (i : Iface) (gig : Bool) (up : Iface → Bool) (p : Poll) :
    linkEvents i ((report strap gig).step up p).2 =
      if level strap i (p.status i) = up i then [] else [level strap i (p.status i)] := by
  have happend (es es' : List Entry) :
      linkEvents i (es ++ es') = linkEvents i es ++ linkEvents i es' := List.filterMap_append
  unfold report
  dsimp only
  rw [happend, linkEvents_ite i .baset _ _ (show linkEvents i [] = [] from rfl),
    linkEvents_ite i .spe _ _ (linkEvents_statusLines strap i gig p.print)]
  cases i with
  | spe => exact List.nil_append _
  | baset => exact List.append_nil _

/-- **The lines about a link are the changes of its bit**, each of them and no others. -/
theorem linkEvents_report (i : Iface) (gig : Bool) (polls : List Poll) (up : Iface → Bool) :
    up i :: linkEvents i ((report strap gig).outs up polls).flatten =
      (polls.map fun p => level strap i (p.status i)).destutter' (· ≠ ·) (up i) := by
  induction polls generalizing up with
  | nil => rfl
  | cons p polls ih =>
    have hstep := linkEvents_step strap i gig up p
    unfold linkEvents at ih hstep ⊢
    rw [Machine.outs_cons, List.flatten_cons, List.filterMap_append, hstep, List.map_cons]
    have hnext : ((report strap gig).step up p).1 i = level strap i (p.status i) := rfl
    by_cases hsame : level strap i (p.status i) = up i
    · rw [if_pos hsame, List.destutter'_cons_neg _ (not_not.mpr hsame.symm), List.nil_append,
        ← hsame, ← hnext]
      exact ih _
    · rw [if_neg hsame, List.destutter'_cons_pos _ (Ne.symm hsame), List.singleton_append, ← hnext]
      exact congrArg _ (ih _)

/-- **The polling loop.** Once both PHYs are accepted, and whatever their
registers do from then on, `main` logs what `report` says: the lines about each
link are the changes of its bit, in order, starting from down; the dump that
follows a change of the single-pair link is of the registers as they are then.
All that the loop does is to log and to read, so no register of a PHY changes
at its hands (`passive_holds`), and nothing ever clashes on a bus. -/
theorem links_logged (hw : Hardware) (samples : List Bool) (hgood : true ∈ samples) (b : Board)
    (l : Layout) (h : Cold b l) (hpolling : outcome strap l = .polling) (polls : List Poll) :
    let r := (main strap hw samples polls b).1
    let log := ((report strap (decide (IsGig strap l))).outs (fun _ => false) polls).flatten
    r.entries = (boot strap hw samples b).1.entries ++ log ∧
      (∀ i, false :: linkEvents i log =
        (polls.map fun p => level strap i (p.status i)).destutter' (· ≠ ·) false) ∧
      (∃ ops, r.trace = (boot strap hw samples b).1.trace ++ ops ∧ ∀ op ∈ ops, Passive op) ∧
      (∀ p, polls.getLast? = some p → (r.bus .baset).phy.regs.toStore = p.baset ∧
        ((r.bus .spe).phy.regs.toStore = p.spe ∨ (r.bus .spe).phy.regs.toStore = p.print .tdrtc1)) ∧
      ∀ i, (r.bus i).clash = false := by
  have hboot : Booted strap l (boot strap hw samples b) := by
    rw [boot_released strap hw samples b hgood]
    exact initPHYs_spec (released_cold hw samples h) (released_pinned strap l hw samples b)
  have hmain : main strap hw samples polls b =
      (((loop strap).final (St.start (boot strap hw samples b).1) polls).board, .polling) := by
    unfold main
    dsimp only
    rw [if_pos (hboot.status.trans hpolling)]
  rw [hmain]
  generalize boot strap hw samples b = booted at *
  have hfollows : Follows (decide (IsGig strap l)) (St.start booted.1) (fun _ => false) :=
    ⟨rfl, rfl, hboot.gig, fun i => ⟨_, hboot.idle hpolling i⟩⟩
  obtain ⟨hend, hentries⟩ := loop_run strap polls hfollows
  refine ⟨hentries, fun i => linkEvents_report strap i _ polls fun _ => false,
    loop_adds strap polls (St.start booted.1), ?_, ?_⟩
  · intro p hp
    obtain ⟨ps, rfl⟩ := List.getLast?_eq_some_iff.mp hp
    obtain ⟨hbefore, -⟩ := loop_run strap ps hfollows
    obtain ⟨-, -, hbaset, hspe⟩ := loop_step strap hbefore p
    rw [Machine.final_append]
    exact ⟨(holds_regs hbaset).1, hspe.imp (fun h => (holds_regs h).1) fun h => (holds_regs h).1⟩
  · intro i
    obtain ⟨st, hst⟩ := hend.idle i
    exact (holds_regs hst).2

/-- The link of the base-T PHY, at some values of its status register. -/
def basetPolls (status : List (BitVec 16)) : List Poll :=
  status.map fun v => ⟨⟨fun _ => v, fun _ _ => 0⟩, layout100 .spe, fun _ => layout100 .spe⟩

theorem links_logged_flap :
    let booted := (boot (fun _ => 0) ⟨0, 0, 0, 0, 0⟩ [true] cold100).1
    let r := (main (fun _ => 0) ⟨0, 0, 0, 0, 0⟩ [true] (basetPolls [0, 4, 4, 0]) cold100).1
    r.entries = booted.entries ++ [linkLine .baset true, linkLine .baset false] ∧
      ∃ ops, r.trace = booted.trace ++ ops ∧ ∀ op ∈ ops, Passive op := by
  obtain ⟨hentries, -, hpassive, -⟩ := links_logged (fun _ => 0) ⟨0, 0, 0, 0, 0⟩ [true] (by decide)
    cold100 layout100 ⟨fun i => ⟨_, _, _, _, _, rfl, rfl⟩, rfl⟩ (by decide) (basetPolls [0, 4, 4, 0])
  refine ⟨hentries.trans (congrArg _ ?_), hpassive⟩
  decide

end DevBoards.Converter
