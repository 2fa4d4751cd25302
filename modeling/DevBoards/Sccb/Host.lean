import DevBoards.Hw.Apb

/-!
# The host of the SCCB simulation

The state machine that issues two writes and a read over APB
(kup-lulz/rtl/sims/SCCB_Sim.sv), one clock cycle a step, and the peripheral
`APB_Dummy`. The outputs are registers: a cycle shows what the edge before it
latched.

* `Inv`: the state number determines the registers.
* `host_run`: from any state the host keeps to the protocol and issues what
  is left of its transfers.
* `composed_register`: `APB_Dummy` is a register.
* `sccb_correct`: the host keeps to the protocol whatever the completer does,
  and with `APB_Dummy` reads what it wrote last.
* `sccb_completes`: nine cycles with the link up and the completer ready are
  enough for all three transfers.
-/
namespace DevBoards.Sccb
open Apb

structure Request where
  pwrite : Bool
  paddr : BitVec 32
  pwdata : BitVec 32
  pstrb : BitVec 4
deriving DecidableEq, Repr

/-- `host_state` and the registers on `apb_comp`. -/
structure Host where
  host_state : Nat
  preset_n : Bool
  psel : Bool
  penable : Bool
  request : Request

/-- mirrors kup-lulz/rtl/sims/SCCB_Sim.sv:118-128 -/
def initial : Host := ⟨0, false, false, false, ⟨false, 0, 0, 0⟩⟩

/-- What the host samples at a clock edge. -/
structure Sampled where
  host_tx_ll_link_up : Bool
  pready : Bool

/-- mirrors kup-lulz/rtl/sims/SCCB_Sim.sv:130-209 -/
def edge (h : Host) (i : Sampled) : Host :=
  let h := { h with preset_n := true }
  match h.host_state with
  | 0 =>
    if i.host_tx_ll_link_up then
      { h with psel := true, request := ⟨true, 0xbaadc0de, 0xdeadbeef, 0b1111⟩, host_state := 1 }
    else h
  | 1 => { h with penable := true, host_state := 2 }
  | 2 => if i.pready then { h with penable := false, psel := false, host_state := 3 } else h
  | 3 => { h with psel := true, request := ⟨true, 0xcafebabe, 0xfeedface, 0b1111⟩, host_state := 4 }
  | 4 => { h with penable := true, host_state := 5 }
  | 5 => if i.pready then { h with penable := false, psel := false, host_state := 6 } else h
  | 6 =>
    { h with psel := true,
             request := { h.request with pwrite := false, paddr := 0xcafebabe, pstrb := 0 },
             host_state := 7 }
  | 7 => { h with penable := true, host_state := 8 }
  | 8 => if i.pready then { h with penable := false, psel := false, host_state := 9 } else h
  | _ => h

/-- The signals during a cycle, before its edge. -/
def Host.cycle (h : Host) (pready : Bool) : BusCycle Request :=
  ⟨h.psel, h.penable, pready, h.request⟩

def host : Machine Host Sampled (BusCycle Request) := ⟨fun h i => (edge h i, h.cycle i.pready)⟩

/-! ## The transfers -/

def write1 : Request := ⟨true, 0xbaadc0de, 0xdeadbeef, 0b1111⟩

def write2 : Request := ⟨true, 0xcafebabe, 0xfeedface, 0b1111⟩

/-- The data lines keep what the second write left on them. -/
def read3 : Request := ⟨false, 0xcafebabe, 0xfeedface, 0⟩

/-- All that the host does on the bus. -/
def transfers : List (Event Request) :=
  [.setup write1, .complete write1, .setup write2, .complete write2, .setup read3, .complete read3]

/-- The registers in each state. -/
inductive Inv : Host → Phase Request → List (Event Request) → Prop
  | init (n : Bool) (r : Request) : Inv ⟨0, n, false, false, r⟩ .idle transfers
  | setup1 : Inv ⟨1, true, true, false, write1⟩ .idle transfers
  | access1 : Inv ⟨2, true, true, true, write1⟩ (.access write1) (transfers.drop 1)
  | done1 : Inv ⟨3, true, false, false, write1⟩ .idle (transfers.drop 2)
  | setup2 : Inv ⟨4, true, true, false, write2⟩ .idle (transfers.drop 2)
  | access2 : Inv ⟨5, true, true, true, write2⟩ (.access write2) (transfers.drop 3)
  | done2 : Inv ⟨6, true, false, false, write2⟩ .idle (transfers.drop 4)
  | setup3 : Inv ⟨7, true, true, false, read3⟩ .idle (transfers.drop 4)
  | access3 : Inv ⟨8, true, true, true, read3⟩ (.access read3) (transfers.drop 5)
  | done3 : Inv ⟨9, true, false, false, read3⟩ .idle []

theorem inv_initial : Inv initial .idle transfers := .init false ⟨false, 0, 0, 0⟩

variable {h : Host} {phase : Phase Request} {left : List (Event Request)}

/-- **One cycle** is allowed, and shows the next of the events left, if any. -/
theorem Inv.step (hinv : Inv h phase left) (i : Sampled) :
    Allowed phase (h.cycle i.pready) ∧ ∃ left',
      left = (bus.step phase (h.cycle i.pready)).2.toList ++ left' ∧
        Inv (edge h i) (bus.step phase (h.cycle i.pready)).1 left' := by
  obtain ⟨link, ready⟩ := i
  cases hinv with
  | init n r =>
    refine ⟨rfl, transfers, rfl, ?_⟩
    cases link
    · exact .init true r
    · exact .setup1
  | setup1 => exact ⟨rfl, _, rfl, .access1⟩
  | setup2 => exact ⟨rfl, _, rfl, .access2⟩
  | setup3 => exact ⟨rfl, _, rfl, .access3⟩
  | done1 => exact ⟨rfl, _, rfl, .setup2⟩
  | done2 => exact ⟨rfl, _, rfl, .setup3⟩
  | done3 => exact ⟨rfl, _, rfl, .done3⟩
  | access1 =>
    refine ⟨⟨rfl, rfl, rfl⟩, ?_⟩
    cases ready
    · exact ⟨_, rfl, .access1⟩
    · exact ⟨_, rfl, .done1⟩
  | access2 =>
    refine ⟨⟨rfl, rfl, rfl⟩, ?_⟩
    cases ready
    · exact ⟨_, rfl, .access2⟩
    · exact ⟨_, rfl, .done2⟩
  | access3 =>
    refine ⟨⟨rfl, rfl, rfl⟩, ?_⟩
    cases ready
    · exact ⟨_, rfl, .access3⟩
    · exact ⟨_, rfl, .done3⟩

theorem host_run (inputs : List Sampled) (hinv : Inv h phase left) :
    bus.Along Allowed phase (host.outs h inputs) ∧
      ∃ left', left = (bus.outs phase (host.outs h inputs)).reduceOption ++ left' ∧
        Inv (host.final h inputs) (bus.final phase (host.outs h inputs)) left' := by
  induction inputs generalizing h phase left with
  | nil => exact ⟨trivial, left, rfl, hinv⟩
  | cons i inputs ih =>
    obtain ⟨hallowed, left₁, rfl, hnext⟩ := hinv.step i
    obtain ⟨halong, left₂, rfl, hend⟩ := ih hnext
    refine ⟨⟨hallowed, halong⟩, left₂, ?_, hend⟩
    show _ = ((bus.step phase (h.cycle i.pready)).2 ::
      bus.outs _ (host.outs (edge h i) inputs)).reduceOption ++ left₂
    cases (bus.step phase (h.cycle i.pready)).2 with
    | none => rfl
    | some e => rfl

/-- Without link-up the host waits. -/
theorem host_waits (inputs : List Sampled) (hlink : ∀ i ∈ inputs, i.host_tx_ll_link_up = false) :
    (host.final initial inputs).host_state = 0 ∧ (host.final initial inputs).psel = false := by
  refine host.final_inv (Q := fun _ i => i.host_tx_ll_link_up = false)
    (fun h => h.host_state = 0 ∧ h.psel = false) ?_ inputs initial ⟨rfl, rfl⟩
    (host.along_of_forall (fun _ => hlink) _)
  rintro h i ⟨hstate, hpsel⟩ hdown
  have hedge : edge h i = { h with preset_n := true } := by
    unfold edge
    simp only [hstate, hdown]
    rfl
  show (edge h i).host_state = 0 ∧ (edge h i).psel = false
  rw [hedge]
  exact ⟨hstate, hpsel⟩

/-- The host against any link and any completer: it keeps to the protocol, sets
up and completes each of its transfers at most once and in order, and selects
nothing before it saw the link up. -/
structure Requester (inputs : List Sampled) : Prop where
  protocol : bus.Along Allowed .idle (host.outs initial inputs)
  enabled : ∀ c ∈ host.outs initial inputs, c.penable = true → c.psel = true
  events : (bus.outs .idle (host.outs initial inputs)).reduceOption <+: transfers
  completed : (host.outs initial inputs).filterMap BusCycle.completed? <+: [write1, write2, read3]
  linked : (host.final initial inputs).psel = true → ∃ i ∈ inputs, i.host_tx_ll_link_up = true

theorem host_correct (inputs : List Sampled) : Requester inputs := by
  obtain ⟨halong, left, hevents, -⟩ := host_run inputs inv_initial
  have hprefix : (bus.outs .idle (host.outs initial inputs)).reduceOption <+: transfers :=
    ⟨left, hevents.symm⟩
  refine ⟨halong, penable_psel halong, hprefix, ?_, ?_⟩
  · exact (completed_eq halong).symm ▸ hprefix.filterMap Event.completed?
  · intro hpsel
    by_contra hnone
    have hdown : ∀ i ∈ inputs, i.host_tx_ll_link_up = false := fun i hi =>
      Bool.eq_false_iff.mpr fun hup => hnone ⟨i, hi, hup⟩
    rw [(host_waits inputs hdown).2] at hpsel
    cases hpsel

/-! ## Progress -/

/-- Nothing keeps the host from going on in such a cycle. -/
def Sampled.go (i : Sampled) : Bool := i.host_tx_ll_link_up && i.pready

/-- **One cycle** with the link up, and no transfer kept waiting, is one state on. -/
theorem Inv.advance (hinv : Inv h phase left) {i : Sampled} (hlink : i.host_tx_ll_link_up = true)
    (hready : h.psel = true → h.penable = true → i.pready = true) :
    min 9 (h.host_state + 1) ≤ (edge h i).host_state := by
  obtain ⟨link, ready⟩ := i
  obtain rfl : link = true := hlink
  cases hinv with
  | init | setup1 | setup2 | setup3 | done1 | done2 | done3 => exact Nat.le_refl _
  | access1 | access2 | access3 =>
    obtain rfl : ready = true := hready rfl rfl
    exact Nat.le_refl _

/-- No cycle goes back. -/
theorem Inv.monotone (hinv : Inv h phase left) (i : Sampled) :
    h.host_state ≤ (edge h i).host_state := by
  obtain ⟨link, ready⟩ := i
  cases hinv with
  | init => exact Nat.zero_le _
  | setup1 | setup2 | setup3 | done1 | done2 => exact Nat.le_succ _
  | done3 => exact Nat.le_refl _
  | access1 | access2 | access3 =>
    cases ready
    · exact Nat.le_refl _
    · exact Nat.le_succ _

theorem Inv.ended (hinv : Inv h phase left) (hend : 9 ≤ h.host_state) : left = [] := by
  cases hinv with
  | done3 => rfl
  | init => exact absurd hend (Nat.not_succ_le_zero 8)
  | _ => exact absurd hend (by decide)

theorem host_advance (inputs : List Sampled) (hinv : Inv h phase left) :
    min 9 (h.host_state + inputs.countP Sampled.go) ≤ (host.final h inputs).host_state := by
  induction inputs generalizing h phase left with
  | nil => exact Nat.min_le_right ..
  | cons i inputs ih =>
    obtain ⟨-, left', -, hnext⟩ := hinv.step i
    have hrest := ih hnext
    show _ ≤ (host.final (edge h i) inputs).host_state
    by_cases hgo : i.go = true
    · obtain ⟨hlink, hready⟩ := Bool.and_eq_true_iff.mp hgo
      have hone := hinv.advance hlink fun _ _ => hready
      rw [List.countP_cons_of_pos hgo]
      omega
    · have hone := hinv.monotone i
      rw [List.countP_cons_of_neg hgo]
      omega

/-- At the last state all transfers have been completed. -/
theorem host_ended (inputs : List Sampled) (hend : 9 ≤ (host.final initial inputs).host_state) :
    (host.outs initial inputs).filterMap BusCycle.completed? = [write1, write2, read3] := by
  obtain ⟨halong, left, hevents, hinv⟩ := host_run inputs inv_initial
  rw [hinv.ended hend, List.append_nil] at hevents
  rw [completed_eq halong, ← hevents]
  rfl

/-! ## APB_Dummy -/

/-- The combinatorial outputs.
mirrors kup-lulz/rtl/sims/SCCB_Sim.sv:225-235 -/
structure Answer where
  pready : Bool
  prdata : BitVec 32
  pslverr : Bool

def dummyAnswer (foo : BitVec 32) (psel penable : Bool) (r : Request) : Answer :=
  let pready := psel && penable
  ⟨pready, if pready && !r.pwrite then foo else 0, false⟩

/-- mirrors kup-lulz/rtl/sims/SCCB_Sim.sv:237-240 -/
def dummyEdge (foo : BitVec 32) (pready : Bool) (r : Request) : BitVec 32 :=
  if r.pwrite && pready then r.pwdata else foo

/-- The host wired to the peripheral; the input is the link. A cycle comes
with the data on `prdata`. -/
def composed : Machine (Host × BitVec 32) Bool (BusCycle Request × BitVec 32) where
  step s link :=
    let (h, foo) := s
    let answer := dummyAnswer foo h.psel h.penable h.request
    ((edge h ⟨link, answer.pready⟩, dummyEdge foo answer.pready h.request),
      (h.cycle answer.pready, answer.prdata))

def done (c : BusCycle Request × BitVec 32) : Option Request := c.1.completed?

/-- What a transfer carried: the data written or read. -/
def carried (c : BusCycle Request × BitVec 32) : Option (Request × BitVec 32) :=
  (done c).map fun r => (r, if r.pwrite then r.pwdata else c.2)

/-- What a register that holds `foo` holds after a transfer. -/
def Request.write (r : Request) (foo : BitVec 32) : BitVec 32 := if r.pwrite then r.pwdata else foo

def held (foo : BitVec 32) : List Request → BitVec 32
  | [] => foo
  | r :: rs => held (r.write foo) rs

/-- What it answers: a write carries its own data, a read what is held. -/
def register (foo : BitVec 32) : List Request → List (Request × BitVec 32)
  | [] => []
  | r :: rs => (r, r.write foo) :: register (r.write foo) rs

theorem register_prefix {rs rs' : List Request} (hrs : rs <+: rs') (foo : BitVec 32) :
    register foo rs <+: register foo rs' := by
  obtain ⟨rest, rfl⟩ := hrs
  induction rs generalizing foo with
  | nil => exact List.nil_prefix
  | cons r rs ih => exact (List.cons_prefix_cons).mpr ⟨rfl, ih _⟩

/-- Either a cycle completes no transfer and `foo` stays, or it completes one
the way a register does. -/
theorem composed_step {h h' : Host} {foo foo' : BitVec 32} {link : Bool}
    {c : BusCycle Request × BitVec 32} (hstep : composed.step (h, foo) link = ((h', foo'), c)) :
    (done c = none ∧ foo' = foo) ∨
      ∃ r, done c = some r ∧ carried c = some (r, r.write foo) ∧ foo' = r.write foo := by
  obtain ⟨state, n, psel, penable, r⟩ := h
  obtain ⟨⟨⟩, rfl⟩ := Prod.mk.inj hstep
  -- `pready` is `psel && penable`
  cases hready : psel && penable with
  | false =>
    left
    simp only [done, BusCycle.completed?, Host.cycle, dummyAnswer, dummyEdge, hready,
      Bool.false_and, Bool.and_false]
    exact ⟨rfl, rfl⟩
  | true =>
    obtain ⟨rfl, rfl⟩ := Bool.and_eq_true_iff.mp hready
    obtain ⟨pwrite, paddr, pwdata, pstrb⟩ := r
    right
    refine ⟨⟨pwrite, paddr, pwdata, pstrb⟩, rfl, ?_⟩
    cases pwrite
    · exact ⟨rfl, rfl⟩
    · exact ⟨rfl, rfl⟩

/-- **The peripheral is a register**: it answers as one would to the transfers
completed, and holds what one would hold. -/
theorem composed_register (links : List Bool) (h : Host) (foo : BitVec 32) :
    (composed.outs (h, foo) links).filterMap carried =
        register foo ((composed.outs (h, foo) links).filterMap done) ∧
      (composed.final (h, foo) links).2 =
        held foo ((composed.outs (h, foo) links).filterMap done) := by
  induction links generalizing h foo with
  | nil => exact ⟨rfl, rfl⟩
  | cons link links ih =>
    rw [Machine.outs_cons, Machine.final_cons]
    obtain ⟨⟨⟨h', foo'⟩, c⟩, hstep⟩ : ∃ out, composed.step (h, foo) link = out := ⟨_, rfl⟩
    obtain ⟨hseen, hheld⟩ := ih h' foo'
    rw [hstep]
    rcases composed_step hstep with ⟨hnone, rfl⟩ | ⟨r, hsome, hcarried, rfl⟩
    · have hcarried : carried c = none := by rw [carried, hnone]; rfl
      rw [List.filterMap_cons_none hcarried, List.filterMap_cons_none hnone]
      exact ⟨hseen, hheld⟩
    · rw [List.filterMap_cons_some hcarried, List.filterMap_cons_some hsome]
      exact ⟨congrArg (_ :: ·) hseen, hheld⟩

/-- Wired to the peripheral, the host sees some link and some completer. -/
theorem composed_host (links : List Bool) (h : Host) (foo : BitVec 32) :
    ∃ inputs, (composed.outs (h, foo) links).map Prod.fst = host.outs h inputs ∧
      (composed.final (h, foo) links).1 = host.final h inputs := by
  induction links generalizing h foo with
  | nil => exact ⟨[], rfl, rfl⟩
  | cons link links ih =>
    obtain ⟨inputs, hinputs, hend⟩ :=
      ih (composed.step (h, foo) link).1.1 (composed.step (h, foo) link).1.2
    exact ⟨⟨link, h.psel && h.penable⟩ :: inputs, congrArg (_ :: ·) hinputs, hend⟩

/-- The peripheral keeps no transfer waiting, so the link is all that the host
needs. -/
theorem composed_advance (links : List Bool) (foo : BitVec 32) (hinv : Inv h phase left) :
    min 9 (h.host_state + links.count true) ≤ (composed.final (h, foo) links).1.host_state := by
  induction links generalizing h phase left foo with
  | nil => exact Nat.min_le_right ..
  | cons link links ih =>
    obtain ⟨-, left', -, hnext⟩ := hinv.step ⟨link, h.psel && h.penable⟩
    have hrest := ih (composed.step (h, foo) link).1.2 hnext
    rw [Machine.final_cons]
    cases link with
    | true =>
      have hone := hinv.advance (i := ⟨true, h.psel && h.penable⟩) rfl fun hsel hen => by
        rw [hsel, hen]; rfl
      rw [List.count_cons_self]
      exact Nat.le_trans (by omega) hrest
    | false =>
      have hone := hinv.monotone ⟨false, h.psel && h.penable⟩
      rw [List.count_cons_of_ne (by decide)]
      exact Nat.le_trans (by omega) hrest

/-- The host wired to `APB_Dummy`, whatever the link does: every completed
write leaves its data in `foo`, and the read returns the data of the last
completed write. -/
structure Stored (links : List Bool) : Prop where
  data : (composed.outs (initial, 0) links).filterMap carried <+:
    [(write1, 0xdeadbeef), (write2, 0xfeedface), (read3, 0xfeedface)]
  answers : (composed.outs (initial, 0) links).filterMap carried =
    register 0 ((composed.outs (initial, 0) links).filterMap done)
  foo : (composed.final (initial, 0) links).2 =
    held 0 ((composed.outs (initial, 0) links).filterMap done)

theorem dummy_correct (links : List Bool) : Stored links := by
  obtain ⟨hregister, hheld⟩ := composed_register links initial 0
  obtain ⟨inputs, hinputs, -⟩ := composed_host links initial 0
  have hdone : (composed.outs (initial, 0) links).filterMap done <+: [write1, write2, read3] := by
    have hcompleted := (host_correct inputs).completed
    rwa [← hinputs, List.filterMap_map] at hcompleted
  exact ⟨hregister ▸ register_prefix hdone 0, hregister, hheld⟩

/-- **The simulation is correct**, alone and wired to `APB_Dummy`. -/
theorem sccb_correct (inputs : List Sampled) (links : List Bool) :
    Requester inputs ∧ Stored links :=
  ⟨host_correct inputs, dummy_correct links⟩

/-- **The simulation gets through.** Nine cycles with the link up, and the
completer ready in them, see all three transfers completed; wired to
`APB_Dummy`, the link is enough, and the read returns the second write. -/
theorem sccb_completes (inputs : List Sampled) (links : List Bool) :
    (9 ≤ inputs.countP Sampled.go →
        (host.outs initial inputs).filterMap BusCycle.completed? = [write1, write2, read3]) ∧
      (9 ≤ links.count true → (composed.outs (initial, 0) links).filterMap carried =
        [(write1, 0xdeadbeef), (write2, 0xfeedface), (read3, 0xfeedface)]) := by
  constructor
  · intro hgo
    have hadvance := host_advance inputs inv_initial
    exact host_ended inputs (Nat.le_trans (Nat.le_min.mpr ⟨Nat.le_refl 9, by omega⟩) hadvance)
  · intro hup
    have hadvance := composed_advance links 0 inv_initial
    obtain ⟨inputs, hinputs, hend⟩ := composed_host links initial 0
    rw [hend] at hadvance
    have hdone := host_ended inputs
      (Nat.le_trans (Nat.le_min.mpr ⟨Nat.le_refl 9, by omega⟩) hadvance)
    rw [← hinputs, List.filterMap_map] at hdone
    rw [(composed_register links initial 0).1]
    exact congrArg (register 0) hdone

end DevBoards.Sccb
