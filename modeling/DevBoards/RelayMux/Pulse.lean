import DevBoards.Hw.Scope
import DevBoards.RelayMux.Agreement

/-!
# The coils, over time

What a scope on the board's pins shows from power-on on, while the client sends
whatever it likes, whenever it likes. `SetRelay` is to power a coil for twice as
long as its relay takes to move, and then to release it.

* `coils_pulsed`: the pulses are the commands, in order, each of 100 ticks; and
  each relay is where the last pulse on its coils put it.
-/
namespace DevBoards.RelayMux

open Scope (Event Pulse pulses scope)

def IDN : CString := ⟨[0x2a, 0x49, 0x44, 0x4e, 0x3f], by decide⟩

/-- mirrors quad-relay-mux/firmware/main/RelaySCPITask.cpp:85-92 -/
def onSpecialCommand (line : CString) : List Op :=
  if CString.strcmp line IDN = 0 then [.print "AntikernelLabs,AKL-QUADRELAY,NoSerial,0.1\n"] else []

/-- What the SCPI parser calls. -/
inductive Input
  | call (c : Call)
  | special (line : CString)

def Input.ops (s : St) : Input → List Op
  | .call c => c.ops s
  | .special line => onSpecialCommand line

/-- A session: before each line, the client is silent for a while. -/
def session : St → List (Nat × Input) → List Op
  | _, [] => []
  | s, (idle, i) :: is => .sleep idle :: i.ops s ++ session (board.final s (i.ops s)) is

/-! ## What the scope sees -/

def Op.event? : Op → Option (Event Pin)
  | .gpio pin level => some (.write pin level)
  | .sleep ticks => some (.wait ticks)
  | _ => none

def events (ops : List Op) : List (Event Pin) := ops.filterMap Op.event?

theorem events_append (ops ops' : List Op) : events (ops ++ ops') = events ops ++ events ops' :=
  List.filterMap_append

/-- The channel and the side that a line selects. -/
def Input.move : Input → Option (Fin 4 × Bool)
  | .call (.onCommand subject command args) =>
    if CString.strstr subject CHAN = some 0 ∧ CString.strcmp command MUX = 0 then
      (nchan subject).map fun n => (n, args.get 0 == 0x42)
    else none
  | _ => none

/-- The pulses that some commands call for, each after a silence. -/
def commanded : Nat → List (Nat × Option (Fin 4 × Bool)) → List (Pulse Pin)
  | _, [] => []
  | now, (idle, none) :: cs => commanded (now + idle) cs
  | now, (idle, some (n, sel)) :: cs =>
    ⟨coil (sideOf sel) n, now + idle, 100⟩ :: commanded (now + idle + 100) cs

/-- `InitRelays`, as commands. -/
def bootCommands : List (Nat × Option (Fin 4 × Bool)) := (List.finRange 4).map fun n => (0, some (n, false))

/-- Where the last pulse on the coils of `n` put its relay. -/
def position (side : Side) (ps : List (Pulse Pin)) (n : Fin 4) : Side :=
  ps.foldl (fun side p =>
    if p.pin = coil .a n then .a else if p.pin = coil .b n then .b else side) side

/-! ## One line -/

variable {s : St} {t : Scope.St Pin} {n : Fin 4} {sel : Bool}

/-- The scope shows the levels of the board. -/
def Shows (t : Scope.St Pin) (s : St) : Prop := ∀ pin, (t.since pin).isSome = s.gpio pin

theorem levels_events (ops : List Op) (s : St) :
    Scope.levels s.gpio (events ops) = (board.final s ops).gpio := by
  induction ops generalizing s with
  | nil => rfl
  | cons op ops ih =>
    have hops := ih (exec s op).1
    cases op <;> exact hops

theorem Shows.run (h : Shows t s) (ops : List Op) :
    Shows (scope.final t (events ops)) (board.final s ops) := by
  intro pin
  rw [Scope.scope_level, ← levels_events, funext h]

theorem Shows.low (h : Shows t s) (hcoil : NoCoil s) (side : Side) (n : Fin 4) :
    t.since (coil side n) = none :=
  Option.not_isSome_iff_eq_none.mp (by rw [h, Bool.not_eq_true]; exact hcoil side n)

/-- **`SetRelay` is one pulse**, on the coil of the side it is asked for. -/
theorem setRelay_pulse (h : Shows t s) (hcoil : NoCoil s) (n : Fin 4) (sel : Bool) :
    scope.final t (events (setRelay n sel)) = { t with now := t.now + 100 } ∧
      pulses t (events (setRelay n sel)) = [⟨coil (sideOf sel) n, t.now, 100⟩] := by
  have hevents : events (setRelay n sel) =
      [.write (coil (sideOf sel) n) true, .wait 100] ++ [relayA n, relayB n].map (.write · false) := by
    cases sel <;> rfl
  have hpin : coil (sideOf sel) n ∈ [relayA n, relayB n] := by
    cases sel
    · exact List.mem_cons_self ..
    · exact List.mem_cons_of_mem _ (List.mem_cons_self ..)
  have hlow : ∀ p ∈ [relayA n, relayB n], t.since p = none :=
    List.forall_mem_cons.mpr ⟨h.low hcoil .a n, List.forall_mem_singleton.mpr (h.low hcoil .b n)⟩
  rw [hevents]
  exact Scope.scope_pulse hpin hlow 100

/-- A line moves one relay, or does nothing but print. -/
theorem Input.ops_cases (s : St) (i : Input) :
    (i.move = none ∧ (i.ops s = [] ∨ ∃ text, i.ops s = [.print text])) ∨
      ∃ n sel, i.move = some (n, sel) ∧ i.ops s = [Op.select n sel] ++ setRelay n sel ++
        [Op.led (muxledA n) (sel == false), Op.led (muxledB n) (sel == true)] := by
  cases i with
  | special line =>
    refine .inl ⟨rfl, ?_⟩
    show onSpecialCommand line = [] ∨ ∃ text, onSpecialCommand line = [.print text]
    unfold onSpecialCommand
    split
    · exact .inr ⟨_, rfl⟩
    · exact .inl rfl
  | call c =>
    cases c with
    | onQuery subject command => exact .inl ⟨rfl, onQuery_cases s subject command⟩
    | onCommand subject command args =>
      have hmove : Input.move (.call (.onCommand subject command args)) =
          if CString.strstr subject CHAN = some 0 ∧ CString.strcmp command MUX = 0 then
            (nchan subject).map fun n => (n, args.get 0 == 0x42)
          else none := rfl
      have hops : Input.ops s (.call (.onCommand subject command args)) =
          onCommand subject command args := rfl
      rw [hmove, hops]
      unfold onCommand
      by_cases hsubject : CString.strstr subject CHAN = some 0
      · by_cases hcommand : CString.strcmp command MUX = 0
        · rw [if_pos ⟨hsubject, hcommand⟩, if_pos hsubject, if_neg (not_not.mpr hcommand)]
          cases nchan subject with
          | none => exact .inl ⟨rfl, .inl rfl⟩
          | some n => exact .inr ⟨n, _, rfl, rfl⟩
        · rw [if_neg fun h => hcommand h.2, if_pos hsubject, if_pos hcommand]
          exact .inl ⟨rfl, .inl rfl⟩
      · rw [if_neg fun h => hsubject h.1, if_neg hsubject]
        exact .inl ⟨rfl, .inl rfl⟩

theorem switched_inv (h : Inv s) (n : Fin 4) (sel : Bool) : Inv (switched s n sel) :=
  ⟨⟨h.ready.coils, h.ready.reset⟩, fun m => switched_follows h.follows n m sel⟩

/-- What a line that moves a relay does to the board, and shows on the scope. -/
theorem move_spec (h : Inv s) (hshow : Shows t s) (n : Fin 4) (sel : Bool) :
    let ops := [Op.select n sel] ++ setRelay n sel ++
      [Op.led (muxledA n) (sel == false), Op.led (muxledB n) (sel == true)]
    board.final s ops = switched s n sel ∧
      scope.final t (events ops) = { t with now := t.now + 100 } ∧
      pulses t (events ops) = [⟨coil (sideOf sel) n, t.now, 100⟩] := by
  intro ops
  have hready : Ready { s with select := Function.update s.select n sel } :=
    ⟨h.ready.coils, h.ready.reset⟩
  have hevents : events ops = events (setRelay n sel) := by cases sel <;> rfl
  obtain ⟨hfinal, hpulse⟩ := setRelay_pulse hshow h.ready.coils n sel
  rw [hevents]
  refine ⟨?_, hfinal, hpulse⟩
  have hselect : board.final s [.select n sel] =
    { s with select := Function.update s.select n sel } := rfl
  rw [Machine.final_append, Machine.final_append, hselect, (setRelay_spec hready n sel).1]
  rfl

theorem position_cons (side : Side) (rise ticks : Nat) (ps : List (Pulse Pin)) (n m : Fin 4) :
    position side (⟨coil (sideOf sel) n, rise, ticks⟩ :: ps) m =
      position (if m = n then sideOf sel else side) ps m := by
  have hA : coil (sideOf sel) n = coil .a m ↔ sideOf sel = .a ∧ n = m :=
    ⟨coil_inj, fun ⟨h, h'⟩ => by rw [h, h']⟩
  have hB : coil (sideOf sel) n = coil .b m ↔ sideOf sel = .b ∧ n = m :=
    ⟨coil_inj, fun ⟨h, h'⟩ => by rw [h, h']⟩
  refine congrArg (fun side => position side ps m) ?_
  simp only [hA, hB]
  by_cases hm : m = n
  · cases sel <;> simp [hm, sideOf]
  · simp [hm, Ne.symm hm]

/-! ## Sessions -/

/-- **A session**, from any state between two lines. -/
theorem session_spec (is : List (Nat × Input)) (h : Inv s) (hshow : Shows t s) :
    let ps := commanded t.now (is.map fun i => (i.1, i.2.move))
    pulses t (events (session s is)) = ps ∧
      (∀ n, (board.final s (session s is)).relay n = position (s.relay n) ps n) ∧
      NoCoil (board.final s (session s is)) := by
  induction is generalizing s t with
  | nil => exact ⟨rfl, fun _ => rfl, h.ready.coils⟩
  | cons i is ih =>
    obtain ⟨idle, i⟩ := i
    let t' : Scope.St Pin := { t with now := t.now + idle }
    have hquiet : Shows t' s := hshow
    -- the silence, the line, and what follows it
    have hsplit (u : St) (hu : board.final s (i.ops s) = u) :
        pulses t (events (session s ((idle, i) :: is))) = pulses t' (events (i.ops s)) ++
            pulses (scope.final t' (events (i.ops s))) (events (session u is)) ∧
          board.final s (session s ((idle, i) :: is)) = board.final u (session u is) := by
      subst hu
      constructor
      · rw [← Scope.pulses_append, ← events_append]
        rfl
      · exact board.final_append s (i.ops s) _
    rcases i.ops_cases s with ⟨hmove, hops⟩ | ⟨n, sel, hmove, hops⟩
    · have hnone : events (i.ops s) = [] ∧ board.final s (i.ops s) = s := by
        rcases hops with hops | ⟨text, hops⟩
        · rw [hops]
          exact ⟨rfl, rfl⟩
        · rw [hops]
          exact ⟨rfl, rfl⟩
      obtain ⟨hpulses, hfinal⟩ := hsplit s hnone.2
      rw [hpulses, hfinal, hnone.1, List.map_cons, hmove]
      exact ih h hquiet
    · obtain ⟨hboard, hscope, hpulse⟩ := move_spec h hquiet n sel
      rw [← hops] at hboard hscope hpulse
      obtain ⟨hpulses, hfinal⟩ := hsplit _ hboard
      have hnext : Shows (scope.final t' (events (i.ops s))) (switched s n sel) :=
        hboard ▸ hquiet.run (i.ops s)
      rw [hscope] at hnext
      obtain ⟨hps, hrelay, hcoil⟩ := ih (switched_inv h n sel) hnext
      rw [hpulses, hfinal, hpulse, hscope, hps, List.map_cons, hmove]
      refine ⟨rfl, fun m => ?_, hcoil⟩
      rw [hrelay, switched_relay]
      exact (position_cons _ _ _ _ n m).symm

/-- `m_select` is clear at the end of boot. -/
theorem booted_select (s : St) (n : Fin 4) : (board.final s bspInit).select n = false := by
  have hconstructed (s : St) : (board.final s appInit).select n = false := by
    match n with
    | 0 | 1 | 2 | 3 => rfl
  unfold bspInit
  rw [Machine.final_append]
  exact hconstructed _

/-- **The coils, over time.** From power-on, whatever the relays and the expander
hold then, and whatever the client sends and when: the pulses on the board's pins
are one for each channel at boot and one for each command, on the coil of its
side, each of 100 ticks and none of any other pin; each relay is where the last
pulse on its coils put it; and no coil is left energised. -/
theorem coils_pulsed (e : Expander) (r : Fin 4 → Side) (m : Fin 4 → Bool) (is : List (Nat × Input)) :
    let ops := bspInit ++ session (board.final (powerOn e r m) bspInit) is
    let ps := pulses Scope.start (events ops)
    let s := board.final (powerOn e r m) ops
    ps = commanded 40 (bootCommands ++ is.map fun i => (i.1, i.2.move)) ∧
      (∀ n, s.relay n = position (r n) ps n) ∧ NoCoil s := by
  intro ops ps s
  obtain ⟨-, hready, hfollows⟩ := booted_spec e r m
  have hshow : Shows Scope.start (powerOn e r m) := fun _ => rfl
  have hnow : (scope.final Scope.start (events bspInit)).now = 440 := by decide
  have hboot : pulses Scope.start (events bspInit) = commanded 40 bootCommands := by decide
  obtain ⟨hps, hrelay, hcoil⟩ := session_spec is ⟨hready, hfollows⟩ (hshow.run bspInit)
  rw [hnow] at hps hrelay
  have hsplit : ps = commanded 40 bootCommands ++
      commanded 440 (is.map fun i => (i.1, i.2.move)) := by
    show pulses _ (events (_ ++ _)) = _
    rw [events_append, Scope.pulses_append]
    exact congrArg₂ _ hboot hps
  have hfinal : s = board.final (board.final (powerOn e r m) bspInit)
      (session (board.final (powerOn e r m) bspInit) is) := board.final_append ..
  refine ⟨hsplit, fun n => ?_, hfinal ▸ hcoil⟩
  have hstart : position (r n) (commanded 40 bootCommands) n = .a := by
    generalize r n = side
    cases side <;> revert n <;> decide
  rw [hfinal, hrelay, (hfollows n).relay, booted_select, hsplit, position, position,
    List.foldl_append]
  exact congrArg (fun side => position side _ n) hstart.symm

end DevBoards.RelayMux
