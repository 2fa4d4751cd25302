import Mathlib.Data.List.ReduceOption
import Mathlib.Logic.Function.Basic
import DevBoards.Core.Machine

/-!
# Pulses on pins

`scope` watches writes to pins, of any type, and the waits between them. Its
output is a pulse at each falling edge: when the pin rose, and how long it was
high.

* `scope_level`: a pin is high just if the last write to it says so.
* `scope_pulse`: to raise a pin, wait and lower it is one pulse.
-/
namespace DevBoards.Scope

variable {P : Type*} [DecidableEq P]

inductive Event (P : Type*)
  | write (pin : P) (level : Bool)
  | wait (ticks : Nat)

structure Pulse (P : Type*) where
  pin : P
  rise : Nat
  ticks : Nat
deriving DecidableEq, Repr

/-- `since` is when a pin that is high rose. -/
structure St (P : Type*) where
  now : Nat
  since : P → Option Nat

/-- All pins low. -/
def start : St P := ⟨0, fun _ => none⟩

def scope : Machine (St P) (Event P) (Option (Pulse P)) where
  step s
    | .write pin true =>
      ({ s with since := Function.update s.since pin ((s.since pin).or (some s.now)) }, none)
    | .write pin false =>
      ({ s with since := Function.update s.since pin none },
        (s.since pin).map fun rise => ⟨pin, rise, s.now - rise⟩)
    | .wait ticks => ({ s with now := s.now + ticks }, none)

/-- The pulses that end in a run. -/
def pulses (s : St P) (es : List (Event P)) : List (Pulse P) := (scope.outs s es).reduceOption

variable (s : St P) (pin : P)

theorem pulses_append (es es' : List (Event P)) :
    pulses s (es ++ es') = pulses s es ++ pulses (scope.final s es) es' := by
  unfold pulses
  rw [Machine.outs_append, List.reduceOption_append]

/-- The levels after some writes. -/
def levels (l : P → Bool) : List (Event P) → P → Bool
  | [] => l
  | .write pin level :: es => levels (Function.update l pin level) es
  | .wait _ :: es => levels l es

/-- **What is high**, after any run. -/
theorem scope_level (es : List (Event P)) :
    ((scope.final s es).since pin).isSome = levels (fun p => (s.since p).isSome) es pin := by
  induction es generalizing s with
  | nil => rfl
  | cons e es ih =>
    rw [Machine.final_cons, ih]
    cases e with
    | wait ticks => rfl
    | write p level =>
      refine congrArg (fun l => levels l es pin) (funext fun q => ?_)
      rw [Function.update_apply]
      by_cases hq : q = p
      · subst hq
        cases level with
        | true => simp [scope]
        | false => simp [scope]
      · cases level with
        | true => simp [scope, hq]
        | false => simp [scope, hq]

variable {s pin}

/-- To lower a pin that is low does nothing. -/
theorem scope_low (h : s.since pin = none) : scope.step s (.write pin false) = (s, none) := by
  have hsame : Function.update s.since pin none = s.since := Function.update_eq_self_iff.mpr h.symm
  simp only [scope, hsame, h, Option.map_none]

theorem scope_lows {ps : List P} (h : ∀ p ∈ ps, s.since p = none) :
    scope.final s (ps.map (.write · false)) = s ∧ pulses s (ps.map (.write · false)) = [] := by
  induction ps with
  | nil => exact ⟨rfl, rfl⟩
  | cons p ps ih =>
    obtain ⟨hfinal, hpulses⟩ := ih fun q hq => h q (List.mem_cons_of_mem _ hq)
    have hstep := scope_low (h p (List.mem_cons_self ..))
    unfold pulses at hpulses ⊢
    rw [List.map_cons, Machine.final_cons, Machine.outs_cons, hstep]
    exact ⟨hfinal, hpulses⟩

/-- A pin that rose at `rise` is lowered, with others that are low. -/
theorem scope_fall {ps : List P} (hpin : pin ∈ ps) (h : ∀ p ∈ ps, s.since p = none) (rise : Nat) :
    let high := { s with since := Function.update s.since pin (some rise) }
    scope.final high (ps.map (.write · false)) = s ∧
      pulses high (ps.map (.write · false)) = [⟨pin, rise, s.now - rise⟩] := by
  intro high
  induction ps with
  | nil => exact absurd hpin List.not_mem_nil
  | cons p ps ih =>
    have hps := fun q hq => h q (List.mem_cons_of_mem p hq)
    by_cases hp : p = pin
    · subst hp
      have hback : Function.update (Function.update s.since p (some rise)) p none = s.since := by
        rw [Function.update_idem, Function.update_eq_self_iff.mpr (h p hpin).symm]
      have hstep : scope.step high (.write p false) = (s, some ⟨p, rise, s.now - rise⟩) := by
        simp only [scope, high, hback, Function.update_self, Option.map_some]
      obtain ⟨hfinal, hpulses⟩ := scope_lows hps
      unfold pulses at hpulses ⊢
      rw [List.map_cons, Machine.final_cons, Machine.outs_cons, hstep]
      exact ⟨hfinal, congrArg (_ :: ·) hpulses⟩
    · have hlow : high.since p = none := by
        rw [← h p (List.mem_cons_self ..)]
        exact Function.update_of_ne hp _ _
      obtain ⟨hfinal, hpulses⟩ := ih (List.mem_of_ne_of_mem (Ne.symm hp) hpin) hps
      unfold pulses at hpulses ⊢
      rw [List.map_cons, Machine.final_cons, Machine.outs_cons, scope_low hlow]
      exact ⟨hfinal, hpulses⟩

/-- **One pulse.** A pin is raised, and lowered `ticks` later with others that
are low. -/
theorem scope_pulse {ps : List P} (hpin : pin ∈ ps) (h : ∀ p ∈ ps, s.since p = none) (ticks : Nat) :
    let es := [Event.write pin true, .wait ticks] ++ ps.map (.write · false)
    scope.final s es = { s with now := s.now + ticks } ∧ pulses s es = [⟨pin, s.now, ticks⟩] := by
  have hrise : scope.final s [.write pin true, .wait ticks] =
      ⟨s.now + ticks, Function.update s.since pin (some s.now)⟩ := by
    simp only [Machine.final_cons, Machine.final_nil, scope, h pin hpin, Option.none_or]
  have hquiet : pulses s [.write pin true, .wait ticks] = [] := rfl
  have hticks : s.now + ticks - s.now = ticks := Nat.add_sub_cancel_left ..
  obtain ⟨hfinal, hpulses⟩ := scope_fall (s := { s with now := s.now + ticks }) hpin h s.now
  intro es
  rw [Machine.final_append, pulses_append, hrise, hquiet, List.nil_append]
  refine ⟨hfinal, hpulses.trans ?_⟩
  show [(⟨pin, s.now, s.now + ticks - s.now⟩ : Pulse P)] = _
  rw [hticks]

end DevBoards.Scope
