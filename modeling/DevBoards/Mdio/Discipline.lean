import Mathlib.Data.List.ReduceOption
import DevBoards.Core.Machine
import DevBoards.Mdio.RegisterMap

/-!
# What the controller does with its two pins

The controller on pins that keep a record of the operations; what it reads from
MDIO is arbitrary. `lines` plays a record back: the level of MDC, the direction
of MDIO, the rising edges and the samples.

* `Emitted`: what one stretch of the record does to the lines.
* `read_emits`, `write_emits`: one call, edge by edge.
* `pin_discipline`: every call of any sequence keeps to the rules and to its
  schedule.
-/
namespace DevBoards.Mdio

inductive PinOp
  /-- `m_io.SetMode(mode, 0, false)` -/
  | setMode (mode : Mode)
  /-- `m_io = level` -/
  | setIo (level : Bool)
  /-- the value of `m_io` is read -/
  | getIo
  /-- `m_clk = level` -/
  | setClk (level : Bool)
deriving DecidableEq, Repr

/-- Pins that record the operations. `value` is what is read, after the operations so far. -/
def recorder (value : List PinOp → Bool) : Pins (List PinOp) where
  setMode mode w := w ++ [PinOp.setMode mode]
  setIo level w := w ++ [PinOp.setIo level]
  getIo w := (value w, w ++ [PinOp.getIo])
  setClk level w := w ++ [PinOp.setClk level]

structure Lines where
  mdc : Bool
  mdio : Mode
deriving DecidableEq, Repr

inductive Seen
  /-- a rising edge of MDC, with MDIO driven by the controller or not -/
  | rising (driven : Bool)
  | sample
deriving DecidableEq, Repr

def lines : Machine Lines PinOp (Option Seen) where
  step s
    | .setMode mode => ({ s with mdio := mode }, none)
    | .setIo _ => (s, none)
    | .getIo => (s, some .sample)
    | .setClk level =>
        ({ s with mdc := level },
          if level && !s.mdc then some (.rising (s.mdio == .output)) else none)

/-- The rules: MDIO changes level and direction only while MDC is low, it is
sampled only while MDC is low and MDIO an input, and MDC alternates. -/
def Disciplined (s : Lines) : PinOp → Prop
  | .setMode _ => s.mdc = false
  | .setIo _ => s.mdc = false
  | .getIo => s.mdc = false ∧ s.mdio = .input
  | .setClk level => level = !s.mdc

/-- Between calls: MDC low, MDIO an input. -/
def released : Lines := ⟨false, .input⟩

def driving : Lines := ⟨false, .output⟩

/-- What is seen of a call. -/
def Call.schedule : Call → List Seen
  | .read _ _ => List.replicate 32 (.rising false) ++ List.replicate 14 (.rising true) ++
      List.replicate 2 (.rising false) ++
      (List.replicate 16 [Seen.sample, Seen.rising false]).flatten
  | .write _ _ _ => List.replicate 32 (.rising false) ++ List.replicate 32 (.rising true) ++
      List.replicate 2 (.rising false)

def Seen.driven? : Seen → Option Bool
  | .rising driven => some driven
  | .sample => none

/-- The rising edges of a `Read`: 64, and MDIO is driven at the 33rd to the 46th. -/
theorem schedule_read (phyaddr regaddr : BitVec 8) :
    (Call.read phyaddr regaddr).schedule.filterMap Seen.driven? =
      List.replicate 32 false ++ List.replicate 14 true ++ List.replicate 18 false := rfl

/-- The rising edges of a `Write`: 66, and MDIO is driven at the 33rd to the 64th. -/
theorem schedule_write (phyaddr regaddr : BitVec 8) (regval : BitVec 16) :
    (Call.write phyaddr regaddr regval).schedule.filterMap Seen.driven? =
      List.replicate 32 false ++ List.replicate 32 true ++ List.replicate 2 false := rfl

/-! ## Stretches of the record -/

/-- From `w` to `w'` the record grows by operations that keep to the rules,
take the lines from `s` to `s'` and show `seen`. -/
def Emitted (s : Lines) (w w' : List PinOp) (seen : List Seen) (s' : Lines) : Prop :=
  ∃ ops, w' = w ++ ops ∧ lines.Along Disciplined s ops ∧ lines.final s ops = s' ∧
    (lines.outs s ops).reduceOption = seen

variable {s s' s'' : Lines} {w w' w'' : List PinOp} {seen seen' : List Seen}

theorem Emitted.refl (s : Lines) (w : List PinOp) : Emitted s w w [] s :=
  ⟨[], (List.append_nil w).symm, trivial, rfl, rfl⟩

theorem Emitted.trans (h : Emitted s w w' seen s') (h' : Emitted s' w' w'' seen' s'') :
    Emitted s w w'' (seen ++ seen') s'' := by
  obtain ⟨ops, rfl, halong, rfl, rfl⟩ := h
  obtain ⟨ops', rfl, halong', rfl, rfl⟩ := h'
  refine ⟨ops ++ ops', List.append_assoc .., ?_, ?_, ?_⟩
  · exact (lines.along_append ..).mpr ⟨halong, halong'⟩
  · exact lines.final_append ..
  · rw [Machine.outs_append, List.reduceOption_append]

/-- A stretch over and over. -/
theorem Emitted.iterate {f : List PinOp → List PinOp} (h : ∀ w, Emitted s w (f w) seen s) (n : Nat)
    (w : List PinOp) : Emitted s w (f^[n] w) (List.replicate n seen).flatten s := by
  induction n generalizing w with
  | zero => exact .refl s w
  | succ n ih => exact (h w).trans (ih (f w))

variable (value : List PinOp → Bool) (mdio : Mode)

theorem setMode_emits (mode : Mode) (w : List PinOp) :
    Emitted ⟨false, mdio⟩ w ((recorder value).setMode mode w) [] ⟨false, mode⟩ :=
  ⟨[.setMode mode], rfl, ⟨rfl, trivial⟩, rfl, rfl⟩

theorem clockCycle_emits (w : List PinOp) :
    Emitted ⟨false, mdio⟩ w (clockCycle (recorder value) w) [.rising (mdio == .output)]
      ⟨false, mdio⟩ :=
  ⟨[.setClk true, .setClk false], List.append_assoc .., ⟨rfl, rfl, trivial⟩, rfl, rfl⟩

theorem sendBit_emits (level : Bool) (w : List PinOp) :
    Emitted ⟨false, mdio⟩ w (sendBit (recorder value) level w) [.rising (mdio == .output)]
      ⟨false, mdio⟩ := by
  have hlevel : Emitted ⟨false, mdio⟩ w ((recorder value).setIo level w) [] ⟨false, mdio⟩ :=
    ⟨[.setIo level], rfl, ⟨rfl, trivial⟩, rfl, rfl⟩
  exact hlevel.trans (clockCycle_emits value mdio _)

theorem sendAddress_emits (addr : BitVec 8) (w : List PinOp) :
    Emitted driving w (sendAddress (recorder value) addr w) (List.replicate 5 (.rising true))
      driving := by
  have hbit := sendBit_emits value .output
  exact ((((hbit _ w).trans (hbit _ _)).trans (hbit _ _)).trans (hbit _ _)).trans (hbit _ _)

theorem preamble_emits (w : List PinOp) :
    Emitted released w (preamble (recorder value) w) (List.replicate 32 (.rising false))
      released := by
  have hcycle := clockCycle_emits value .input
  exact Emitted.iterate
    (fun w => (((hcycle w).trans (hcycle _)).trans (hcycle _)).trans (hcycle _)) 8 w

theorem readReply_emits (n : Nat) (ret : BitVec 16) (w : List PinOp) :
    Emitted released w (readReply (recorder value) n ret w).2
      (List.replicate n [Seen.sample, Seen.rising false]).flatten released := by
  induction n generalizing ret w with
  | zero => exact .refl released w
  | succ n ih =>
    have hsample : Emitted released w (w ++ [PinOp.getIo]) [.sample] released :=
      ⟨[.getIo], rfl, ⟨⟨rfl, rfl⟩, trivial⟩, rfl, rfl⟩
    exact (hsample.trans (clockCycle_emits value .input _)).trans (ih _ _)

theorem sendMessage_emits (n : Nat) (regval : BitVec 16) (w : List PinOp) :
    Emitted driving w (sendMessage (recorder value) n regval w) (List.replicate n (.rising true))
      driving := by
  induction n generalizing regval w with
  | zero => exact .refl driving w
  | succ n ih =>
    have hbit : Emitted driving w (clockCycle (recorder value) (if regval &&& 0x8000 != 0
        then (recorder value).setIo true w else (recorder value).setIo false w)) [.rising true]
        driving := by
      split
      · exact sendBit_emits value .output true w
      · exact sendBit_emits value .output false w
    exact hbit.trans (ih _ _)

/-! ## Calls -/

/-- The start of either frame, up to the addresses. -/
theorem header_emits (b b' : Bool) (phyaddr regaddr : BitVec 8) (w : List PinOp) :
    let P := recorder value
    Emitted released w
      (sendAddress P regaddr (sendAddress P phyaddr (sendBit P b (sendBit P b' (sendBit P true
        (sendBit P false (P.setMode .output (preamble P w))))))))
      (List.replicate 32 (.rising false) ++ List.replicate 14 (.rising true)) driving := by
  intro P
  have hbit := sendBit_emits value .output
  have hstart := (preamble_emits value w).trans (setMode_emits value .input .output _)
  have hframe := ((hbit false (P.setMode .output (preamble P w))).trans (hbit true _)).trans
    ((hbit b' _).trans (hbit b _))
  have haddr := (sendAddress_emits value phyaddr (sendBit P b (sendBit P b' (sendBit P true
    (sendBit P false (P.setMode .output (preamble P w))))))).trans
      (sendAddress_emits value regaddr _)
  exact hstart.trans (hframe.trans haddr)

/-- MDIO is released, and two clocks follow. -/
theorem release_emits (w : List PinOp) :
    Emitted driving w (clockCycle (recorder value) (clockCycle (recorder value)
      ((recorder value).setMode .input w))) (List.replicate 2 (.rising false)) released := by
  have hcycle := clockCycle_emits value .input
  exact (setMode_emits value .output .input w).trans ((hcycle _).trans (hcycle _))

theorem read_emits (phyaddr regaddr : BitVec 8) (w : List PinOp) :
    Emitted released w (read (recorder value) phyaddr regaddr w).2
      (Call.read phyaddr regaddr).schedule released :=
  ((header_emits value false true phyaddr regaddr w).trans (release_emits value _)).trans
    (readReply_emits value 16 0 _)

theorem write_emits (phyaddr regaddr : BitVec 8) (regval : BitVec 16) (w : List PinOp) :
    Emitted released w (write (recorder value) phyaddr regaddr regval w)
      (Call.write phyaddr regaddr regval).schedule released := by
  have hmessage : ∀ w, Emitted driving w
      (sendMessage (recorder value) 16 regval
        (sendBit (recorder value) false (sendBit (recorder value) true w)))
      (List.replicate 18 (.rising true)) driving := by
    intro w
    have hbit := sendBit_emits value .output
    exact ((hbit true w).trans (hbit false _)).trans (sendMessage_emits value 16 regval _)
  exact ((header_emits value true false phyaddr regaddr w).trans (hmessage _)).trans
    (release_emits value _)

/-- Successive calls. The output is the part of the record that each adds. -/
def recorded : Machine (List PinOp) Call (List PinOp) where
  step w c :=
    let w' := match c with
      | .read phyaddr regaddr => (read (recorder value) phyaddr regaddr w).2
      | .write phyaddr regaddr regval => write (recorder value) phyaddr regaddr regval w
    (w', w'.drop w.length)

theorem recorded_step (w : List PinOp) (c : Call) :
    Emitted released w ((recorded value).step w c).1 c.schedule released := by
  cases c with
  | read phyaddr regaddr => exact read_emits value phyaddr regaddr w
  | write phyaddr regaddr regval => exact write_emits value phyaddr regaddr regval w

/-- What is promised of the part of the record that belongs to one call. -/
structure Kept (c : Call) (ops : List PinOp) : Prop where
  disciplined : lines.Along Disciplined released ops
  scheduled : (lines.outs released ops).reduceOption = c.schedule
  released : lines.final released ops = released

theorem recorded_run (calls : List Call) (w : List PinOp) :
    (recorded value).final w calls = w ++ ((recorded value).outs w calls).flatten ∧
      List.Forall₂ Kept calls ((recorded value).outs w calls) := by
  induction calls generalizing w with
  | nil => exact ⟨(List.append_nil w).symm, .nil⟩
  | cons c calls ih =>
    obtain ⟨ops, hops, halong, hfinal, hseen⟩ := recorded_step value w c
    obtain ⟨hrec, hkept⟩ := ih ((recorded value).step w c).1
    have hpart : ((recorded value).step w c).2 = ops :=
      (congrArg (List.drop w.length) hops).trans (List.drop_left ..)
    rw [Machine.outs_cons, Machine.final_cons, hpart]
    refine ⟨?_, .cons ⟨halong, hseen, hfinal⟩ hkept⟩
    rw [hrec, hops, List.append_assoc]
    rfl

/-- The parts, one after the other, keep to the rules throughout. -/
theorem kept_along {calls : List Call} {parts : List (List PinOp)}
    (h : List.Forall₂ Kept calls parts) : lines.Along Disciplined released parts.flatten := by
  induction h with
  | nil => trivial
  | cons hc _ ih =>
    refine (lines.along_append ..).mpr ⟨hc.disciplined, ?_⟩
    rw [hc.released]
    exact ih

/-- **Pin discipline**, for any sequence of calls on a freshly constructed
interface and whatever is read: the record is that of the constructor, which
brings MDC low and MDIO to an input, and one part for each call. Every part
starts and ends with MDC low and MDIO an input, keeps to the rules at every
operation, and shows the rising edges and samples of the call's schedule. -/
theorem pin_discipline (calls : List Call) (s : Lines) :
    let start := construct (recorder value) []
    let parts := (recorded value).outs start calls
    (recorded value).final start calls = start ++ parts.flatten ∧ lines.final s start = released ∧
      List.Forall₂ Kept calls parts ∧ lines.Along Disciplined released parts.flatten := by
  intro start parts
  obtain ⟨hrec, hkept⟩ := recorded_run value calls start
  exact ⟨hrec, rfl, hkept, kept_along hkept⟩

end DevBoards.Mdio
