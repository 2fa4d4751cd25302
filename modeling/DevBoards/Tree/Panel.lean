import DevBoards.Hw.Gpio
import DevBoards.Tree.Bitbang
import DevBoards.Tree.Persistence

/-!
# What the christmas tree shows

The LEDs themselves: ten pins, and the chain of eight RGB LEDs on PA10, which
keeps the last colours sent to it. The constructor of `LEDTask` clears them and
each `OnTimer` puts the patterns out, first by `RefreshRedGreen` and then by
`RefreshRGB`, which drives PA10 through port A.

* `refreshRedGreen_level`, `refreshRGB_level`: what either does to any pin.
* `tree_displays`: over any history, the LEDs show what the task last computed.
-/
namespace DevBoards.Tree

/-! mirrors christmas-tree/firmware/LEDTask.cpp:37-47 -/

def m_ledCtrl : Pin := ⟨.gpioA, 10⟩

def greenPin : Fin 5 → Pin
  | 0 => ⟨.gpioA, 11⟩
  | 1 => ⟨.gpioB, 7⟩
  | 2 => ⟨.gpioB, 1⟩
  | 3 => ⟨.gpioA, 15⟩
  | 4 => ⟨.gpioA, 12⟩

def redPin : Fin 5 → Pin
  | 0 => ⟨.gpioB, 8⟩
  | 1 => ⟨.gpioB, 0⟩
  | 2 => ⟨.gpioB, 3⟩
  | 3 => ⟨.gpioB, 2⟩
  | 4 => ⟨.gpioA, 4⟩

/-- mirrors christmas-tree/firmware/LEDTask.cpp:103-116 -/
def refreshRedGreen (redPattern greenPattern : UInt8) (l : Levels) : Levels :=
  let l := l.drive (greenPin 0) (greenPattern &&& 1 == 1)
  let l := l.drive (greenPin 1) (greenPattern &&& 2 == 2)
  let l := l.drive (greenPin 2) (greenPattern &&& 4 == 4)
  let l := l.drive (greenPin 3) (greenPattern &&& 8 == 8)
  let l := l.drive (greenPin 4) (greenPattern &&& 16 == 16)
  let l := l.drive (redPin 0) (redPattern &&& 1 == 1)
  let l := l.drive (redPin 1) (redPattern &&& 2 == 2)
  let l := l.drive (redPin 2) (redPattern &&& 4 == 4)
  let l := l.drive (redPin 3) (redPattern &&& 8 == 8)
  l.drive (redPin 4) (redPattern &&& 16 == 16)

/-- A write to `GPIOA.BSRR`, on the pins. -/
def Levels.instr (l : Levels) : Instr → Levels
  | .bsrr v => fun p =>
    if p.port = .gpioA then l p && !v.getLsbD (16 + p.bit.val) || v.getLsbD p.bit.val else l p
  | _ => l

def port : Machine Levels Instr Unit := ⟨fun l i => (Levels.instr l i, ())⟩

/-- The LEDs: the pins, and what the chain has latched. -/
structure Panel where
  levels : Levels
  chain : List (BitVec 24)

/-- The chain reads the pulses, from the level that the line has before. -/
def latch (high : Bool) (is : List Instr) : List (BitVec 24) :=
  Serial.words 8 ((widths (if high then some 0 else none) is).filterMap bit?)

def Panel.refreshRGB (colors : Fin 8 → BitVec 32) (p : Panel) : Panel :=
  ⟨port.final p.levels (Tree.refreshRGB colors),
    latch (p.levels m_ledCtrl) (Tree.refreshRGB colors)⟩

/-- The constructor, up to the read of the pattern.
mirrors christmas-tree/firmware/LEDTask.cpp:52-58 -/
def Panel.construct (p : Panel) : Panel :=
  let p := { p with levels := p.levels.drive m_ledCtrl false }
  let p := p.refreshRGB fun _ => 0
  { p with levels := refreshRedGreen 0 0 p.levels }

/-- mirrors christmas-tree/firmware/LEDTask.cpp:173-175 -/
def Panel.show (shown : Shown) (p : Panel) : Panel :=
  { p with levels := refreshRedGreen shown.redPattern shown.greenPattern p.levels }.refreshRGB
    shown.rgbColors

structure Board (κ : Type) where
  state : State κ
  panel : Panel

variable {κ : Type} (kvs : MicroKvs κ) (σ : EvalOrder)

/-- Power-on, with the LEDs as they may be. -/
def Board.boot (flash : κ) (p : Panel) : Board κ := ⟨Tree.boot kvs flash, p.construct⟩

def board : Machine (Board κ) Event Unit where
  step b e :=
    let r := step kvs σ b.state e
    (⟨r.1, match e, r.2 with
      | .reload, _ => b.panel.construct
      | _, some shown => b.panel.show shown
      | _, none => b.panel⟩, ())

/-! ## What is to be shown -/

/-- All LEDs off. -/
def off : Shown := ⟨.random, 0, 0, fun _ => 0⟩

/-- What a history leaves to be shown: what the last `OnTimer` computed, unless
a reload came after it. -/
def lastShown (shown : Shown) : List (Event × Option Shown) → Shown
  | [] => shown
  | (.reload, _) :: rest => lastShown off rest
  | (_, out) :: rest => lastShown (out.getD shown) rest

/-- Each LED is as computed. -/
structure Panel.Shows (p : Panel) (shown : Shown) : Prop where
  green : ∀ i, p.levels (greenPin i) = shown.greenPattern.toBitVec.getLsbD i
  red : ∀ i, p.levels (redPin i) = shown.redPattern.toBitVec.getLsbD i
  chain : p.chain = (List.finRange 8).map fun i => (shown.rgbColors i).setWidth 24
  /-- The line of the chain is ready for the next colours. -/
  low : p.levels m_ledCtrl = false

/-! ## The pins -/

theorem and_bit (v : UInt8) (k : Nat) (m : UInt8) (hm : m.toBitVec = BitVec.twoPow 8 k)
    (hk : k < 8) : (v &&& m == m) = v.toBitVec.getLsbD k := by
  have hbits := Serial.and_bit_eq v.toBitVec k hk
  rw [← hm] at hbits
  rw [← hbits, Bool.eq_iff_iff, beq_iff_eq, beq_iff_eq, ← UInt8.toBitVec_and]
  exact UInt8.toBitVec_inj.symm

theorem refreshRedGreen_level (redPattern greenPattern : UInt8) (l : Levels) :
    (∀ i, refreshRedGreen redPattern greenPattern l (greenPin i) =
        greenPattern.toBitVec.getLsbD i) ∧
      (∀ i, refreshRedGreen redPattern greenPattern l (redPin i) =
        redPattern.toBitVec.getLsbD i) ∧
      refreshRedGreen redPattern greenPattern l m_ledCtrl = l m_ledCtrl := by
  have hbit (v : UInt8) : (v &&& 1 == 1) = v.toBitVec.getLsbD 0 ∧
      (v &&& 2 == 2) = v.toBitVec.getLsbD 1 ∧ (v &&& 4 == 4) = v.toBitVec.getLsbD 2 ∧
      (v &&& 8 == 8) = v.toBitVec.getLsbD 3 ∧ (v &&& 16 == 16) = v.toBitVec.getLsbD 4 :=
    ⟨and_bit v 0 1 rfl (by decide), and_bit v 1 2 rfl (by decide), and_bit v 2 4 rfl (by decide),
      and_bit v 3 8 rfl (by decide), and_bit v 4 16 rfl (by decide)⟩
  obtain ⟨hg0, hg1, hg2, hg3, hg4⟩ := hbit greenPattern
  obtain ⟨hr0, hr1, hr2, hr3, hr4⟩ := hbit redPattern
  unfold refreshRedGreen
  rw [hg0, hg1, hg2, hg3, hg4, hr0, hr1, hr2, hr3, hr4]
  refine ⟨?_, ?_, rfl⟩
  · intro i
    match i with
    | 0 | 1 | 2 | 3 | 4 => rfl
  · intro i
    match i with
    | 0 | 1 | 2 | 3 | 4 => rfl

/-- An instruction of a refresh drives no pin but PA10. -/
theorem instr_other {i : Instr} (hi : Tame i ∨ i = .disableInterrupts ∨ i = .enableInterrupts)
    (l : Levels) {p : Pin} (hp : p ≠ m_ledCtrl) : Levels.instr l i p = l p := by
  have hbit : ∀ b : Fin 16, b ≠ 10 →
      ((0x400 : BitVec 32).getLsbD (16 + b.val) = false ∧ (0x400 : BitVec 32).getLsbD b.val = false) ∧
        (0x4000000 : BitVec 32).getLsbD (16 + b.val) = false ∧
          (0x4000000 : BitVec 32).getLsbD b.val = false := by decide
  have hbsrr (v : BitVec 32) (hv : p.port = .gpioA →
      v.getLsbD (16 + p.bit.val) = false ∧ v.getLsbD p.bit.val = false) :
      Levels.instr l (.bsrr v) p = l p := by
    unfold Levels.instr
    dsimp only
    split
    · next hport =>
      obtain ⟨hreset, hset⟩ := hv hport
      rw [hreset, hset, Bool.not_false, Bool.and_true, Bool.or_false]
    · rfl
  have hne (hport : p.port = .gpioA) : p.bit ≠ 10 := by
    rintro hten
    obtain ⟨port, bit⟩ := p
    cases hport
    cases hten
    exact hp rfl
  rcases hi with (rfl | rfl | rfl) | rfl | rfl
  · rfl
  · exact hbsrr _ fun hport => (hbit p.bit (hne hport)).1
  · exact hbsrr _ fun hport => (hbit p.bit (hne hport)).2
  · rfl
  · rfl

theorem refreshRGB_instrs (colors : Fin 8 → BitVec 32) : ∀ i ∈ refreshRGB colors,
    Tame i ∨ i = .disableInterrupts ∨ i = .enableInterrupts := by
  intro i hi
  rw [refreshRGB, List.mem_append, List.mem_append, List.mem_singleton, List.mem_singleton] at hi
  rcases hi with (rfl | hi) | rfl
  · exact .inr (.inl rfl)
  · obtain ⟨led, -, hled⟩ := List.mem_flatMap.mp hi
    exact .inl (tame_rgb (colors led) i hled)
  · exact .inr (.inr rfl)

/-- On PA10 the pins and the port's output register agree. -/
theorem port_odr (is : List Instr) (l : Levels) (s : PortA) (h : l m_ledCtrl = s.odr.getLsbD 10) :
    port.final l is m_ledCtrl = (gpioA.final s is).odr.getLsbD 10 := by
  have hsim := port.simulation gpioA (fun l s => l m_ledCtrl = s.odr.getLsbD 10) (fun _ _ => True)
    id (fun _ => ())
    (fun l s i h _ => by
      refine ⟨?_, rfl⟩
      cases i with
      | bsrr v =>
        refine Eq.trans ?_ (odr_bsrr s v (show 10 < 16 by decide)).symm
        rw [← h]
        rfl
      | disableInterrupts | enableInterrupts | nop => exact h)
    is l s h (port.along_of_forall (fun _ _ _ => trivial) l)
  rw [List.map_id] at hsim
  exact hsim.1

/-- **A refresh of the chain**, from a low line: it gets the colours, no other
pin changes, and the line is low again. -/
theorem refreshRGB_level (colors : Fin 8 → BitVec 32) (p : Panel) (hlow : p.levels m_ledCtrl = false) :
    (p.refreshRGB colors).chain = (List.finRange 8).map (fun i => (colors i).setWidth 24) ∧
      (p.refreshRGB colors).levels m_ledCtrl = false ∧
      ∀ q, q ≠ m_ledCtrl → (p.refreshRGB colors).levels q = p.levels q := by
  obtain ⟨-, ⟨bits, hbits, -, hwords⟩, -, hend, -⟩ := refreshRGB_round_trip colors ⟨0, true⟩
  refine ⟨?_, ?_, ?_⟩
  · have hdecode : (widths none (refreshRGB colors)).filterMap bit? = bits := by
      have hall := congrArg (List.filterMap id) hbits
      rwa [List.filterMap_map, List.filterMap_map, Function.id_comp, Function.id_comp,
        List.filterMap_some] at hall
    show latch (p.levels m_ledCtrl) (refreshRGB colors) = _
    rw [hlow, latch, if_neg (by decide), hdecode, hwords]
  · exact (port_odr _ p.levels ⟨0, true⟩ hlow).trans hend
  · intro q hq
    exact port.final_inv (Q := fun _ i => i ∈ refreshRGB colors) (fun l => l q = p.levels q)
      (fun l i hl hi => (instr_other (refreshRGB_instrs colors i hi) l hq).trans hl)
      (refreshRGB colors) p.levels rfl (port.along_of_forall (fun _ _ hi => hi) _)

/-! ## Over a history -/

theorem led_ne : ∀ i : Fin 5, greenPin i ≠ m_ledCtrl ∧ redPin i ≠ m_ledCtrl := by decide

theorem construct_shows (p : Panel) : p.construct.Shows off := by
  obtain ⟨hchain, hlow, -⟩ := refreshRGB_level (fun _ => 0)
    { p with levels := p.levels.drive m_ledCtrl false } (Levels.drive_same p.levels m_ledCtrl false)
  obtain ⟨hgreen, hred, hline⟩ := refreshRedGreen_level 0 0
    (Panel.refreshRGB (fun _ => 0) { p with levels := p.levels.drive m_ledCtrl false }).levels
  exact ⟨hgreen, hred, hchain, hline.trans hlow⟩

theorem show_shows (shown : Shown) {p : Panel} (hlow : p.levels m_ledCtrl = false) :
    (p.show shown).Shows shown := by
  obtain ⟨hgreen, hred, hline⟩ := refreshRedGreen_level shown.redPattern shown.greenPattern p.levels
  obtain ⟨hchain, hend, hother⟩ := refreshRGB_level shown.rgbColors
    { p with levels := refreshRedGreen shown.redPattern shown.greenPattern p.levels }
    (hline.trans hlow)
  exact ⟨fun i => (hother _ (led_ne i).1).trans (hgreen i),
    fun i => (hother _ (led_ne i).2).trans (hred i), hchain, hend⟩

theorem board_state (es : List Event) (b : Board κ) :
    ((board kvs σ).final b es).state = (tree kvs σ).final b.state es := by
  induction es generalizing b with
  | nil => rfl
  | cons e es ih => exact ih _

/-- One event, on the LEDs. -/
theorem board_step {b : Board κ} {shown : Shown} (h : b.panel.Shows shown) (e : Event) :
    ((board kvs σ).step b e).1.panel.Shows (lastShown shown [(e, (step kvs σ b.state e).2)]) := by
  cases e with
  | reload => exact construct_shows b.panel
  | onTimer => exact show_shows _ h.low
  | pattern | commit | zeroize | unrecognized => exact h

/-- **The LEDs show what was computed last.** Over any history from power-on,
whatever the LEDs and the flash held, and in whatever order the calls of
`RandomBit` are evaluated, the ten pins and the chain of eight are as the last
`OnTimer` computed them, for the mode that was selected then, or all off if
there was none since the last boot. -/
theorem tree_displays (flash : κ) (p : Panel) (es : List Event) :
    ((board kvs σ).final (Board.boot kvs flash p) es).panel.Shows
        (lastShown off (es.zip ((tree kvs σ).outs (Tree.boot kvs flash) es))) ∧
      ((board kvs σ).final (Board.boot kvs flash p) es).state =
        (tree kvs σ).final (Tree.boot kvs flash) es := by
  refine ⟨?_, board_state kvs σ es _⟩
  have hrun : ∀ (es : List Event) (b : Board κ) (shown : Shown), b.panel.Shows shown →
      ((board kvs σ).final b es).panel.Shows
        (lastShown shown (es.zip ((tree kvs σ).outs b.state es))) := by
    intro es
    induction es with
    | nil => exact fun b shown h => h
    | cons e es ih =>
      intro b shown h
      have hstep := ih _ _ (board_step kvs σ h e)
      cases e <;> exact hstep
  exact hrun es (Board.boot kvs flash p) off (construct_shows p)

end DevBoards.Tree
