import DevBoards.Core.System
import DevBoards.SuperLink.Interrupt

/-!
# The chip select interrupt, step by step

`SPI_CSHandler` notifies the driver first and clears the pending bit of EXTI
line 4 after. A falling edge sets the bit; one that finds it set leaves no
trace. The handler is IRQ 10 and `SPI1_Handler` is IRQ 35, at the one priority
that the firmware leaves both at: neither preempts the other, and the lower
number goes first. `Interrupt` takes the handler as one step. The kup-lulz
supervisor has the same one (kup-lulz/firmware/super/bsp/common-vectors.cpp:48-55).

* `edges_accounted`: which edges the driver is not told of, over every run.
* `chipSelect_refines`: if edges and bytes are spaced, the two steps are one, and
  the server sees what was on the bus, in order.
-/
namespace DevBoards.SuperLink.ChipSelect

/-- Where `SPI_CSHandler` is. -/
inductive Handler
  | out
  /-- before `OnIRQCSEdge` -/
  | entered
  /-- before `ClearPending` -/
  | notified
deriving DecidableEq, Repr

/-- The driver has been told. -/
@[simp] def Handler.told : Handler → Bool
  | .notified => true
  | .out | .entered => false

structure St where
  world : World
  /-- bit 4 of the pending register -/
  pending : Bool
  handler : Handler
  /-- falling edges of chip select -/
  edges : Nat
  /-- of those, the ones that found the bit set -/
  merged : Nat
  /-- calls of `OnIRQCSEdge` -/
  calls : Nat
  /-- what was on the bus, as far as `DR` took it -/
  bus : List Event
  /-- what the server has taken from the receive FIFO -/
  seen : List Event

def boot : St := ⟨.boot, false, .out, 0, 0, 0, [], []⟩

inductive Label
  /-- Chip select falls. -/
  | edge
  | enter
  /-- `g_spi.OnIRQCSEdge(false)` -/
  | notify
  /-- `EXTI::ClearPending(4)` -/
  | clear
  /-- anything else that happens at the port -/
  | port (a : Action)

/-- The main loop runs, or `SPI1_Handler` starts, only while no other handler
runs; and the latter only while chip select does not ask for its own. -/
def Enabled (s : St) : Action → Prop
  | .arrive _ | .shift => True
  | .handler _ _ => s.handler = .out ∧ s.pending = false
  | .drain => s.handler = .out ∧ s.world.spi.rxFifo ≠ []
  | .push _ | .enable => s.handler = .out
  | .csEdge => False

instance (s : St) (a : Action) : Decidable (Enabled s a) := by
  unfold Enabled
  split <;> exact inferInstance

/-- What a step at the port adds to `bus` and to `seen`. -/
def record (s : St) : Action → St
  | .arrive b => { s with bus := if s.world.spi.rxDr = none then s.bus ++ [.byte b] else s.bus }
  | .drain => { s with seen := s.seen ++ s.world.spi.drain.1.toList }
  | _ => s

/-- mirrors fpga-stm32-ifaces/firmware/super/bsp/common-vectors.cpp:48-55 -/
def step (s : St) : Label → Option St
  | .edge => some { s with pending := true, edges := s.edges + 1,
                           merged := if s.pending then s.merged + 1 else s.merged,
                           bus := s.bus ++ [.csEdge] }
  | .enter => if s.handler = .out ∧ s.pending then some { s with handler := .entered } else none
  | .notify =>
    if s.handler = .entered then
      some { s with handler := .notified, calls := s.calls + 1, world := s.world.step .csEdge }
    else none
  | .clear =>
    if s.handler = .notified then some { s with handler := .out, pending := false } else none
  | .port a => if Enabled s a then some { record s a with world := s.world.step a } else none

def system : System St Label := ⟨step⟩

/-- An edge that the driver has yet to be told of. -/
def St.owed (s : St) : Bool := s.pending && !s.handler.told

/-! ## Which edges are lost -/

/-- The handler runs only while the bit is set, and an edge is one that the
driver was told of, one that found the bit set, or the one still owed. -/
structure Accounts (s : St) : Prop where
  running : s.handler ≠ .out → s.pending = true
  edges : s.edges = s.calls + s.merged + s.owed.toNat

theorem accounts_step {s s' : St} {l : Label} (h : Accounts s) (hstep : step s l = some s') :
    Accounts s' := by
  obtain ⟨hrunning, hedges⟩ := h
  unfold St.owed at hedges
  cases l with
  | edge =>
    cases hstep
    refine ⟨fun _ => rfl, ?_⟩
    unfold St.owed
    cases hp : s.pending with
    | true =>
      simp only [hp, Bool.true_and, if_true] at hedges ⊢
      omega
    | false =>
      have hout : s.handler = .out := by
        by_contra hne
        exact absurd (hrunning hne) (by rw [hp]; decide)
      simp only [hp, hout, Bool.false_and, Bool.toNat_false, Nat.add_zero] at hedges ⊢
      exact congrArg (· + 1) hedges
  | enter =>
    obtain ⟨⟨hout, hp⟩, hs'⟩ := Option.ite_none_right_eq_some.mp hstep
    cases hs'
    refine ⟨fun _ => hp, ?_⟩
    simpa [St.owed, hp, hout] using hedges
  | notify =>
    obtain ⟨hentered, hs'⟩ := Option.ite_none_right_eq_some.mp hstep
    cases hs'
    have hp := hrunning (by rw [hentered]; decide)
    refine ⟨fun _ => hp, ?_⟩
    simp [St.owed, hp, hentered] at hedges ⊢
    omega
  | clear =>
    obtain ⟨hnotified, hs'⟩ := Option.ite_none_right_eq_some.mp hstep
    cases hs'
    refine ⟨fun h => absurd rfl h, ?_⟩
    simpa [St.owed, hnotified] using hedges
  | port a =>
    obtain ⟨-, hs'⟩ := Option.ite_none_right_eq_some.mp hstep
    cases hs'
    cases a <;> exact ⟨hrunning, hedges⟩

theorem accounts_run {labels : List Label} {s : St} (hrun : system.exec boot labels = some s) :
    Accounts s :=
  system.exec_inv (Q := fun _ _ _ => True) Accounts
    (fun _ _ _ h _ hstep => accounts_step h hstep) ⟨fun h => absurd rfl h, rfl⟩
    (system.along_of_inv (fun _ => True) (fun _ _ _ _ _ => ⟨trivial, trivial⟩) labels boot trivial)
    hrun

/-- **Which edges are lost**, over every run: the driver is told of each but
those that found the bit set, and it is owed at most one. -/
theorem edges_accounted (labels : List Label) (s : St)
    (hrun : system.exec boot labels = some s) :
    s.edges = s.calls + s.merged + (if s.pending ∧ s.handler ≠ .notified then 1 else 0) := by
  have howed : s.owed.toNat = if s.pending ∧ s.handler ≠ .notified then 1 else 0 := by
    unfold St.owed
    cases s.pending <;> cases s.handler <;> rfl
  rw [(accounts_run hrun).edges, howed]

/-- Three edges: one told of, one that finds the bit set, and one still owed. -/
theorem edges_accounted_merged : ∃ s,
    system.exec boot [.edge, .enter, .notify, .edge, .clear, .edge] = some s ∧
      s.edges = s.calls + s.merged + 1 ∧ s.merged = 1 := by
  obtain ⟨s, hs⟩ : ∃ s, system.exec boot [.edge, .enter, .notify, .edge, .clear, .edge] = some s :=
    ⟨_, rfl⟩
  refine ⟨s, hs, ?_, ?_⟩
  · rw [edges_accounted _ s hs]
    cases hs
    rfl
  · cases hs
    rfl

/-! ## One step for two -/

/-- The edge that is owed, if any, as one step. -/
def St.settled (s : St) : World := if s.owed then s.world.step .csEdge else s.world

/-- What a step is with the handler taken as one. -/
def Label.actions : Label → List Action
  | .edge => [.csEdge]
  | .port a => [a]
  | .enter | .notify | .clear => []

/-- An edge comes only when the last one has been dealt with, the bytes before
it have been read, and the driver has room for it; and bytes are read in time,
and with room for them. -/
def Spaced (s : St) (l : Label) (_ : St) : Prop :=
  match l with
  | .edge => s.pending = false ∧ s.world.spi.rxDr = none ∧ s.world.spi.rxFifo.length < Spi.fifoSize
  | .port (.arrive _) => s.world.spi.rxDr = none
  | .port (.handler _ _) => s.world.spi.rxFifo.length < Spi.fifoSize
  | _ => True

instance (s : St) (l : Label) (s' : St) : Decidable (Spaced s l s') := by
  unfold Spaced
  split <;> exact inferInstance

/-- While an edge is owed there is room for it, and the server will have seen
the bus in order. -/
structure InOrder (s : St) : Prop where
  running : s.handler ≠ .out → s.pending = true
  room : s.owed = true → s.world.spi.rxFifo.length < Spi.fifoSize
  merged : s.merged = 0
  bus : s.bus = s.seen ++ s.world.spi.rxFifo ++ (if s.owed then [.csEdge] else []) ++
    s.world.spi.rxDr.toList.map .byte

theorem inOrder_boot : InOrder boot := ⟨fun h => absurd rfl h, nofun, rfl, rfl⟩

theorem csEdge_fifo {w : World} (h : w.spi.rxFifo.length < Spi.fifoSize) :
    w.step .csEdge = { w with spi := { w.spi with rxFifo := w.spi.rxFifo ++ [.csEdge] } } := by
  show { w with spi := w.spi.onIRQCSEdge } = _
  rw [Spi.onIRQCSEdge, if_pos h]

/-- What can happen while an edge is owed can as well happen after it. -/
theorem csEdge_comm {s : St} {a : Action} (ha : Enabled s a) (hp : s.pending = true)
    (h : s.world.spi.rxFifo.length < Spi.fifoSize) :
    (s.world.step a).step .csEdge = (s.world.step .csEdge).step a := by
  cases a with
  | arrive b =>
    rw [csEdge_fifo h]
    exact csEdge_fifo h
  | shift =>
    rw [csEdge_fifo h]
    exact csEdge_fifo h
  | handler rxNotEmpty txEmpty => exact absurd (hp.symm.trans ha.2) (by decide)
  | csEdge => exact ha.elim
  | drain =>
    have htail : (s.world.step .drain).spi.rxFifo.length < Spi.fifoSize := by
      show s.world.spi.rxFifo.tail.length < _
      rw [List.length_tail]
      omega
    obtain ⟨e, es, hfifo⟩ := List.exists_cons_of_ne_nil ha.2
    rw [csEdge_fifo h, csEdge_fifo htail]
    simp [World.step, Spi.drain, hfifo]
  | push b =>
    have hpush : (s.world.step (.push b)).spi.rxFifo = s.world.spi.rxFifo := by
      show (s.world.spi.push b).rxFifo = _
      unfold Spi.push
      split
      · rfl
      · rfl
    rw [csEdge_fifo h, csEdge_fifo (hpush ▸ h)]
    simp only [World.step, Spi.push]
    split
    · rfl
    · rfl
  | enable =>
    rw [csEdge_fifo h]
    exact csEdge_fifo h

/-- What the server has yet to see, the edge that is owed in its place. -/
def St.events (s : St) : List Event :=
  s.world.spi.rxFifo ++ (if s.owed then [Event.csEdge] else []) ++ s.world.spi.rxDr.toList.map .byte

/-- An activation of `SPI1_Handler` with room in the FIFO. -/
theorem handler_events (w : World) (rxNotEmpty txEmpty : Bool)
    (h : w.spi.rxFifo.length < Spi.fifoSize) :
    (w.step (.handler rxNotEmpty txEmpty)).spi.events = w.spi.events := by
  have htx (v : World) : (v.handleTx txEmpty).spi.events = v.spi.events := by
    rcases v.handleTx_cases txEmpty with heq | ⟨-, ⟨b, bs, -, heq⟩ | ⟨-, heq⟩⟩
    · rw [heq]
    · rw [heq]
      rfl
    · rw [heq]
      rfl
  refine (htx _).trans ?_
  rcases w.handleRx_cases rxNotEmpty with heq | ⟨b, hb, ⟨-, heq⟩ | ⟨hfull, -⟩⟩
  · rw [heq]
  · rw [heq]
    simp [Spi.events, hb]
  · exact absurd h (Nat.not_lt.mpr hfull)

/-- A step at the port: the edge that is owed stays owed, and the order is kept. -/
theorem port_inOrder {s : St} {a : Action} (h : InOrder s) (ha : Enabled s a)
    (hspaced : Spaced s (.port a) s) : InOrder { record s a with world := s.world.step a } := by
  obtain ⟨hrunning, hroom, hmerged, hbus⟩ := h
  cases a with
  | arrive b =>
    have hdr : s.world.spi.rxDr = none := hspaced
    refine ⟨hrunning, hroom, hmerged, ?_⟩
    simp [record, World.step, Spi.arrive, hdr, hbus, St.owed]
  | shift => exact ⟨hrunning, hroom, hmerged, hbus⟩
  | handler rxNotEmpty txEmpty =>
    have howed : s.owed = false := by rw [St.owed, ha.2, Bool.false_and]
    have hevents := handler_events s.world rxNotEmpty txEmpty hspaced
    refine ⟨hrunning, fun h => absurd (howed.symm.trans h) (by decide), hmerged, ?_⟩
    have hnow : s.bus = s.seen ++ s.world.spi.events := by
      rw [hbus, howed]
      simp [Spi.events]
    show s.bus = s.seen ++ _ ++ (if s.owed then [Event.csEdge] else []) ++ _
    rw [hnow, ← hevents, howed]
    simp [Spi.events]
  | csEdge => exact ha.elim
  | drain =>
    obtain ⟨e, es, hfifo⟩ := List.exists_cons_of_ne_nil ha.2
    refine ⟨hrunning, fun howed => ?_, hmerged, ?_⟩
    · have := hroom howed
      show s.world.spi.rxFifo.tail.length < _
      rw [List.length_tail]
      omega
    · simp [record, World.step, Spi.drain, hfifo, hbus, St.owed]
  | push b =>
    have hrx : (s.world.step (.push b)).spi.rxFifo = s.world.spi.rxFifo ∧
        (s.world.step (.push b)).spi.rxDr = s.world.spi.rxDr := by
      show (s.world.spi.push b).rxFifo = _ ∧ (s.world.spi.push b).rxDr = _
      unfold Spi.push
      split
      · exact ⟨rfl, rfl⟩
      · exact ⟨rfl, rfl⟩
    refine ⟨hrunning, fun howed => ?_, hmerged, ?_⟩
    · show (s.world.step (.push b)).spi.rxFifo.length < _
      rw [hrx.1]
      exact hroom howed
    · show s.bus = s.seen ++ (s.world.step (.push b)).spi.rxFifo ++ _ ++ _
      rw [hrx.1, hrx.2]
      exact hbus
  | enable => exact ⟨hrunning, hroom, hmerged, hbus⟩

/-- **One step of two levels.** -/
theorem settled_step {s s' : St} {l : Label} (h : InOrder s) (hspaced : Spaced s l s')
    (hstep : step s l = some s') :
    InOrder s' ∧ s'.settled = irq.final s.settled l.actions := by
  cases l with
  | edge =>
    cases hstep
    obtain ⟨hp, hdr, hroom⟩ := hspaced
    have hout : s.handler = .out := by
      by_contra hne
      exact absurd (h.running hne) (by rw [hp]; decide)
    have howed : s.owed = false := by rw [St.owed, hp, Bool.false_and]
    refine ⟨⟨fun _ => rfl, fun _ => hroom, ?_, ?_⟩, ?_⟩
    · rw [hp]
      exact h.merged
    · simp [h.bus, hdr, St.owed, hout, hp]
    · simp [St.settled, St.owed, hp, hout, Label.actions, irq]
  | enter =>
    obtain ⟨⟨hout, hp⟩, hs'⟩ := Option.ite_none_right_eq_some.mp hstep
    cases hs'
    have howed : s.owed = true := by rw [St.owed, hp, hout]; rfl
    refine ⟨⟨fun _ => hp, fun _ => h.room howed, h.merged, ?_⟩, ?_⟩
    · have hbus := h.bus
      rw [howed] at hbus
      simpa [St.owed, hp] using hbus
    · simp [St.settled, St.owed, hp, hout, Label.actions]
  | notify =>
    obtain ⟨hentered, hs'⟩ := Option.ite_none_right_eq_some.mp hstep
    cases hs'
    have hp := h.running (by rw [hentered]; decide)
    have howed : s.owed = true := by rw [St.owed, hp, hentered]; rfl
    have hroom := h.room howed
    refine ⟨⟨fun _ => hp, fun h => absurd h (by simp [St.owed]), h.merged, ?_⟩, ?_⟩
    · have hbus := h.bus
      rw [howed] at hbus
      rw [csEdge_fifo hroom]
      simpa [St.owed] using hbus
    · simp [St.settled, St.owed, hp, hentered, Label.actions]
  | clear =>
    obtain ⟨hnotified, hs'⟩ := Option.ite_none_right_eq_some.mp hstep
    cases hs'
    have howed : s.owed = false := by rw [St.owed, hnotified]; exact Bool.and_false _
    refine ⟨⟨fun h => absurd rfl h, fun h => absurd h (by simp [St.owed]), h.merged, ?_⟩, ?_⟩
    · have hbus := h.bus
      rw [howed] at hbus
      simpa [St.owed] using hbus
    · simp [St.settled, St.owed, hnotified, Label.actions]
  | port a =>
    obtain ⟨ha, hs'⟩ := Option.ite_none_right_eq_some.mp hstep
    cases hs'
    refine ⟨port_inOrder h ha hspaced, ?_⟩
    have hsame : St.owed { record s a with world := s.world.step a } = s.owed := by
      cases a <;> rfl
    unfold St.settled
    rw [hsame]
    split
    · next howed =>
      exact csEdge_comm ha ((Bool.and_eq_true _ _).mp howed).1 (h.room howed)
    · rfl

theorem settled_run {s s' : St} {labels : List Label} (h : InOrder s)
    (hspaced : system.Along Spaced s labels) (hrun : system.exec s labels = some s') :
    InOrder s' ∧ s'.settled = irq.final s.settled (labels.flatMap Label.actions) := by
  induction labels generalizing s with
  | nil =>
    cases hrun
    exact ⟨h, rfl⟩
  | cons l labels ih =>
    obtain ⟨t, ht, hrest⟩ := system.exec_cons.mp hrun
    obtain ⟨hl, hls⟩ := hspaced t ht
    obtain ⟨hinv, hone⟩ := settled_step h hl ht
    obtain ⟨hinv', hmany⟩ := ih hinv hls hrest
    refine ⟨hinv', ?_⟩
    rw [List.flatMap_cons, irq.final_append, ← hone]
    exact hmany

/-- **One step for two.** In every run whose edges and bytes are `Spaced`,
whatever comes between the two steps of the handler, the port is as if it were
one step at the edge; each edge is notified once; and what was on the bus is
what the server has seen, and will see, in that order. -/
theorem chipSelect_refines (labels : List Label) (s : St)
    (hspaced : system.Along Spaced boot labels) (hrun : system.exec boot labels = some s) :
    s.settled = irq.final World.boot (labels.flatMap Label.actions) ∧
      s.edges = s.calls + s.owed.toNat ∧ s.bus = s.seen ++ s.events := by
  obtain ⟨hinv, hsettled⟩ := settled_run inOrder_boot hspaced hrun
  refine ⟨hsettled, ?_, ?_⟩
  · rw [(accounts_run hrun).edges, hinv.merged]
    rfl
  · rw [hinv.bus, St.events]
    simp only [List.append_assoc]

/-- A command and a second frame, whose edge comes while the first is drained. -/
def twoFrames : List Label :=
  [.edge, .enter, .notify, .clear, .port (.arrive 0x2a), .port (.handler true false), .edge,
    .port .drain, .enter, .port (.arrive 0x2b), .notify, .clear, .port (.handler true false)]

theorem chipSelect_refines_twoFrames : ∃ s, system.exec boot twoFrames = some s ∧
    s.bus = [.csEdge, .byte 0x2a, .csEdge, .byte 0x2b] ∧ s.bus = s.seen ++ s.events := by
  have hspaced : system.Along Spaced boot twoFrames := by decide
  obtain ⟨s, hs⟩ : ∃ s, system.exec boot twoFrames = some s := ⟨_, rfl⟩
  refine ⟨s, hs, ?_, (chipSelect_refines twoFrames s hspaced hs).2.2⟩
  cases hs
  rfl

end DevBoards.SuperLink.ChipSelect
