import Mathlib.Data.List.Chain
import DevBoards.Core.Machine
import DevBoards.Core.Serial

/-!
# Link notifications

`PollPHYs` of the main loop (fpga-stm32-ifaces/firmware/main/bsp/hwinit.cpp)
keeps the link state in two globals and tells the IP stack about changes. The
speed is ORed into a byte that also holds the marker `0xff`, and indexes a
table of four names.

`session` is what a history of polls amounts to: never up, up since some poll,
or down again. The globals are a function of it.

* `pollPHYs_session`: a poll refines a step of `session`.
* `session_up`: the session names the poll that brought the link up.
* `link_notified`: what the IP stack and the globals see in any run from boot.
-/
namespace DevBoards.LinkState

/-- What one poll reads from the PHY. -/
structure Poll where
  bctl : BitVec 16
  bstat : BitVec 16

inductive Call
  | OnLinkUp
  | OnLinkDown
deriving DecidableEq, Repr

inductive Effect
  /-- a read of `g_linkSpeedNamesLong` -/
  | name (index : UInt8)
  /-- no line: its text lies outside the table -/
  | log (line : Option String)
  | call (c : Call)
deriving DecidableEq, Repr

/-- mirrors fpga-stm32-ifaces/firmware/main/bsp/hwinit.cpp:50-56 -/
def g_linkSpeedNamesLong : List String := ["10 Mbps", "100 Mbps", "1000 Mbps", "10 Gbps"]

structure St where
  g_basetLinkUp : Bool
  g_basetLinkSpeed : UInt8
deriving DecidableEq, Repr

/-- mirrors fpga-stm32-ifaces/firmware/main/bsp/hwinit.cpp:123-127 -/
def boot : St := ⟨false, 0⟩

def Poll.bup (p : Poll) : Bool := p.bstat &&& 4 == 4

/-- mirrors fpga-stm32-ifaces/firmware/main/bsp/hwinit.cpp:785-789 -/
def setSpeed (s : St) (bctl : BitVec 16) : St :=
  let s := { s with g_basetLinkSpeed := 0 }
  let s := if bctl &&& 0x40 == 0x40 then
    { s with g_basetLinkSpeed := s.g_basetLinkSpeed ||| 2 } else s
  if bctl &&& 0x2000 == 0x2000 then
    { s with g_basetLinkSpeed := s.g_basetLinkSpeed ||| 1 } else s

/-- mirrors fpga-stm32-ifaces/firmware/main/bsp/hwinit.cpp:777-802 -/
def pollPHYs (s : St) (p : Poll) : St × List Effect :=
  let (s, effects) :=
    if p.bup && !s.g_basetLinkUp then
      let s := setSpeed s p.bctl
      let line := g_linkSpeedNamesLong[s.g_basetLinkSpeed.toNat]?.map fun name =>
        "Interface mgmt0: link is up at " ++ name ++ "\n"
      (s, [.name s.g_basetLinkSpeed, .log line, .call .OnLinkUp])
    else if !p.bup && s.g_basetLinkUp then
      ({ s with g_basetLinkSpeed := 0xff },
        [.log (some "Interface mgmt0: link is down\n"), .call .OnLinkDown])
    else (s, [])
  ({ s with g_basetLinkUp := p.bup }, effects)

def link : Machine St Poll (List Effect) := ⟨pollPHYs⟩

def Effect.call? : Effect → Option Call
  | .call c => some c
  | _ => none

/-- The calls into the IP stack. -/
def calls (effects : List Effect) : List Call := effects.filterMap Effect.call?

/-! ## The session -/

inductive Session
  | never
  | up (opened : Poll)
  | down

def session : Machine Session Poll (List Call) where
  step
    | .up opened, p => if p.bup then (.up opened, []) else (.down, [.OnLinkDown])
    | σ, p => if p.bup then (.up p, [.OnLinkUp]) else (σ, [])

def call (bup : Bool) : Call := if bup then .OnLinkUp else .OnLinkDown

/-- What a poll has to tell: nothing, unless the bit is not what it was. -/
def notice (prev bup : Bool) : List Call := if bup = prev then [] else [call bup]

/-- The notices of a run of polls. -/
def notices (prev : Bool) (bups : List Bool) : List (List Call) :=
  List.zipWith notice (prev :: bups) bups

/-- The speed code of a control word. -/
def speedCode (bctl : BitVec 16) : Nat := 2 * (bctl.getLsbD 6).toNat + (bctl.getLsbD 13).toNat

def Session.isUp : Session → Bool
  | .up _ => true
  | _ => false

/-- The globals. -/
def Session.globals : Session → St
  | .never => ⟨false, 0⟩
  | .up opened => ⟨true, UInt8.ofNat (speedCode opened.bctl)⟩
  | .down => ⟨false, 0xff⟩

@[simp] theorem Session.globals_up (σ : Session) : σ.globals.g_basetLinkUp = σ.isUp := by
  cases σ <;> rfl

theorem speedCode_lt (bctl : BitVec 16) : speedCode bctl < 4 := by
  unfold speedCode
  have := (bctl.getLsbD 6).toNat_lt
  have := (bctl.getLsbD 13).toNat_lt
  omega

/-- The byte is built from 0: nothing of its old value is left. -/
theorem setSpeed_eq (s : St) (bctl : BitVec 16) :
    setSpeed s bctl = { s with g_basetLinkSpeed := UInt8.ofNat (speedCode bctl) } := by
  have h6 : (bctl &&& 0x40 == 0x40) = bctl.getLsbD 6 := Serial.and_bit_eq bctl 6 (by decide)
  have h13 : (bctl &&& 0x2000 == 0x2000) = bctl.getLsbD 13 := Serial.and_bit_eq bctl 13 (by decide)
  unfold setSpeed speedCode
  rw [h6, h13]
  have hbits : ∀ b6 b13 : Bool, (if b13 then (if b6 then (0 : UInt8) ||| 2 else 0) ||| 1
      else if b6 then 0 ||| 2 else 0) = UInt8.ofNat (2 * b6.toNat + b13.toNat) := by decide
  rw [← hbits]
  cases bctl.getLsbD 6 <;> cases bctl.getLsbD 13 <;> rfl

theorem setSpeed_index (s : St) (bctl : BitVec 16) :
    (setSpeed s bctl).g_basetLinkSpeed.toNat = speedCode bctl := by
  have := speedCode_lt bctl
  rw [setSpeed_eq]
  exact UInt8.toNat_ofNat_of_lt' (by simp only [UInt8.size]; omega)

/-- **A poll refines a step of the session.** -/
theorem pollPHYs_session (σ : Session) (p : Poll) :
    (pollPHYs σ.globals p).1 = (session.step σ p).1.globals ∧
      calls (pollPHYs σ.globals p).2 = (session.step σ p).2 := by
  unfold pollPHYs session
  cases σ <;> cases hup : p.bup <;> simp [Session.globals, setSpeed_eq, calls, hup] <;> rfl

/-- Every use of the table is within it. -/
theorem pollPHYs_name (s : St) (p : Poll) :
    (∀ index, .name index ∈ (pollPHYs s p).2 → index.toNat < g_linkSpeedNamesLong.length) ∧
      .log none ∉ (pollPHYs s p).2 := by
  have hindex : (setSpeed s p.bctl).g_basetLinkSpeed.toNat < g_linkSpeedNamesLong.length := by
    rw [setSpeed_index]
    exact speedCode_lt p.bctl
  unfold pollPHYs
  cases p.bup <;> cases s.g_basetLinkUp <;> simp [hindex]

/-! ## Whole runs -/

/-- Only a change is told, so the calls alternate. -/
theorem notices_alternate (prev : Bool) (bups : List Bool) :
    List.IsChain (· ≠ ·) (call prev :: (notices prev bups).flatten) := by
  induction bups generalizing prev with
  | nil => exact .singleton _
  | cons bup bups ih =>
    show List.IsChain _ (call prev :: (notice prev bup ++ (notices bup bups).flatten))
    by_cases hsame : bup = prev
    · rw [notice, if_pos hsame, ← hsame]
      exact ih bup
    · rw [notice, if_neg hsame]
      refine .cons_cons ?_ (ih bup)
      revert hsame
      cases prev <;> cases bup <;> decide

theorem session_step (σ : Session) (p : Poll) :
    (session.step σ p).1.isUp = p.bup ∧ (session.step σ p).2 = notice σ.isUp p.bup := by
  unfold session
  cases σ <;> cases hup : p.bup <;> simp [Session.isUp, notice, call, hup]

theorem session_step_up {σ : Session} {p opened : Poll} (h : (session.step σ p).1 = .up opened) :
    p.bup = true ∧ (σ = .up opened ∨ σ.isUp = false ∧ p = opened) := by
  have hup : p.bup = true := by
    rw [← (session_step σ p).1, h]
    rfl
  refine ⟨hup, ?_⟩
  unfold session at h
  cases σ with
  | never => exact .inr ⟨rfl, Session.up.inj ((congrArg Prod.fst (if_pos hup)).symm.trans h)⟩
  | up q => exact .inl ((congrArg Prod.fst (if_pos hup)).symm.trans h)
  | down => exact .inr ⟨rfl, Session.up.inj ((congrArg Prod.fst (if_pos hup)).symm.trans h)⟩

theorem session_step_never {σ : Session} {p : Poll} (h : (session.step σ p).1 = .never) :
    σ = .never ∧ (session.step σ p).2 = [] := by
  unfold session at h ⊢
  cases σ <;> cases hup : p.bup <;> simp_all

theorem session_isUp (polls : List Poll) (σ : Session) :
    (session.final σ polls).isUp = (polls.map Poll.bup).getLastD σ.isUp := by
  induction polls generalizing σ with
  | nil => rfl
  | cons p polls ih =>
    rw [Machine.final_cons, ih, (session_step σ p).1, List.map_cons, List.getLastD_cons]

theorem session_outs (polls : List Poll) (σ : Session) :
    session.outs σ polls = notices σ.isUp (polls.map Poll.bup) := by
  induction polls generalizing σ with
  | nil => rfl
  | cons p polls ih =>
    rw [Machine.outs_cons, ih, (session_step σ p).2, (session_step σ p).1]
    rfl

/-- A link that is up was brought up by a poll of the run, and no poll since
saw it down, unless it was up at the start. -/
theorem session_up {opened : Poll} (polls : List Poll) (σ : Session)
    (h : session.final σ polls = .up opened) :
    (σ = .up opened ∧ ∀ p ∈ polls, p.bup = true) ∨
      ∃ pre post, polls = pre ++ opened :: post ∧ (session.final σ pre).isUp = false ∧
        opened.bup = true ∧ ∀ p ∈ post, p.bup = true := by
  induction polls generalizing σ with
  | nil => exact .inl ⟨h, fun p hp => absurd hp List.not_mem_nil⟩
  | cons p polls ih =>
    rcases ih _ h with ⟨hopened, hup⟩ | ⟨pre, post, rfl, hdown, hbup, hup⟩
    · obtain ⟨hp, rfl | ⟨hdown, rfl⟩⟩ := session_step_up hopened
      · exact .inl ⟨rfl, List.forall_mem_cons.mpr ⟨hp, hup⟩⟩
      · exact .inr ⟨[], polls, rfl, hdown, hp, hup⟩
    · exact .inr ⟨p :: pre, post, rfl, hdown, hbup, hup⟩

/-- As long as the link was never up, nothing was told. -/
theorem session_never (polls : List Poll) (σ : Session) (h : session.final σ polls = .never) :
    σ = .never ∧ (session.outs σ polls).flatten = [] := by
  induction polls generalizing σ with
  | nil => exact ⟨h, rfl⟩
  | cons p polls ih =>
    obtain ⟨hnever, houts⟩ := ih _ h
    obtain ⟨hstart, hnone⟩ := session_step_never hnever
    refine ⟨hstart, ?_⟩
    rw [Machine.outs_cons, List.flatten_cons, hnone, houts]
    rfl

/-! ## From boot -/

/-- The firmware runs through the globals of the session and makes its calls. -/
theorem link_session (polls : List Poll) :
    link.final boot polls = (session.final .never polls).globals ∧
      (link.outs boot polls).map calls = session.outs .never polls := by
  have hsim := link.simulation session (fun s σ => s = σ.globals) (fun _ _ => True) id calls
    (by
      rintro s σ p rfl -
      exact pollPHYs_session σ p)
    polls boot .never rfl (link.along_of_forall (fun _ _ _ => trivial) _)
  rwa [List.map_id] at hsim

/-- What the IP stack is told, and what the globals say, after some polls. -/
structure Notified (polls : List Poll) : Prop where
  /-- the calls alternate, and the first is `OnLinkUp` -/
  alternate : List.IsChain (· ≠ ·) (Call.OnLinkDown :: ((link.outs boot polls).map calls).flatten)
  /-- a poll makes a call, one, just when its bit is not that of the poll before -/
  changes : (link.outs boot polls).map calls = notices false (polls.map Poll.bup)
  linkUp : (link.final boot polls).g_basetLinkUp = (polls.map Poll.bup).getLastD false
  index : ∀ effects ∈ link.outs boot polls,
    (∀ index, .name index ∈ effects → index.toNat < 4) ∧ .log none ∉ effects
  /-- up, the speed is that of the poll that brought the link up -/
  speed : (link.final boot polls).g_basetLinkUp = true →
    ∃ (pre post : List Poll) (opened : Poll), polls = pre ++ opened :: post ∧
      (pre.map Poll.bup).getLastD false = false ∧ opened.bup = true ∧ (∀ p ∈ post, p.bup = true) ∧
      (link.final boot polls).g_basetLinkSpeed.toNat = speedCode opened.bctl
  /-- down again, it is the marker -/
  marker : (link.final boot polls).g_basetLinkUp = false →
    Call.OnLinkDown ∈ ((link.outs boot polls).map calls).flatten →
    (link.final boot polls).g_basetLinkSpeed = 0xff

/-- **The IP stack is told of every change of the link and nothing else**, and
the globals follow. -/
theorem link_notified (polls : List Poll) : Notified polls := by
  obtain ⟨hfinal, hcalls⟩ := link_session polls
  have houts := session_outs polls .never
  refine ⟨?_, hcalls.trans houts, ?_, ?_, ?_, ?_⟩
  · rw [hcalls, houts]
    exact notices_alternate false _
  · rw [hfinal, Session.globals_up]
    exact session_isUp polls .never
  · intro effects heffects
    obtain ⟨s, p, -, rfl⟩ := link.mem_outs heffects
    exact pollPHYs_name s p
  · rw [hfinal, Session.globals_up]
    intro hup
    cases hσ : session.final .never polls with
    | up opened =>
      obtain ⟨hstart, -⟩ | ⟨pre, post, hsplit, hdown, hopened, hsince⟩ := session_up polls .never hσ
      · cases hstart
      · rw [session_isUp] at hdown
        refine ⟨pre, post, opened, hsplit, hdown, hopened, hsince, ?_⟩
        have := speedCode_lt opened.bctl
        exact UInt8.toNat_ofNat_of_lt' (by simp only [UInt8.size]; omega)
    | never => rw [hσ] at hup; cases hup
    | down => rw [hσ] at hup; cases hup
  · rw [hfinal, hcalls, Session.globals_up]
    intro hdown htold
    cases hσ : session.final .never polls with
    | down => rfl
    | up opened => rw [hσ] at hdown; cases hdown
    | never =>
      rw [(session_never polls .never hσ).2] at htold
      cases htold

end DevBoards.LinkState
