import Mathlib.Tactic.TypeStar

/-!
# Guarded transition systems: runs and invariants

A `System` moves from a state by a label; `none` means the label is not
enabled there. `exec` follows a list of labels, and `Along Q` says that every
step on the way meets `Q`, a condition on the state before, the label and the
state after.

* `exec_inv`: what every enabled step keeps, the run keeps.
* `along_of_inv`: what an invariant gives at every enabled step holds all along.
-/
namespace DevBoards

structure System (S L : Type*) where
  step : S → L → Option S

namespace System

variable {S L : Type*} (M : System S L)

/-- The state after the labels, if each was enabled in turn. -/
def exec (s : S) : List L → Option S
  | [] => some s
  | l :: ls => (M.step s l).bind fun s' => exec s' ls

/-- Every step of the run meets `Q`. -/
def Along (Q : S → L → S → Prop) : S → List L → Prop
  | _, [] => True
  | s, l :: ls => ∀ s', M.step s l = some s' → Q s l s' ∧ Along Q s' ls

instance decidableAlong (Q : S → L → S → Prop) [∀ s l s', Decidable (Q s l s')] :
    ∀ (s : S) (ls : List L), Decidable (M.Along Q s ls)
  | _, [] => isTrue trivial
  | s, l :: ls =>
    match h : M.step s l with
    | none => isTrue fun s' hs' => by rw [h] at hs'; cases hs'
    | some s' =>
      have := decidableAlong Q s' ls
      decidable_of_iff (Q s l s' ∧ M.Along Q s' ls)
        ⟨fun hq t ht => by rw [h] at ht; exact Option.some.inj ht ▸ hq, fun hq => hq s' h⟩

theorem exec_cons {s s'' : S} {l : L} {ls : List L} :
    M.exec s (l :: ls) = some s'' ↔ ∃ s', M.step s l = some s' ∧ M.exec s' ls = some s'' :=
  Option.bind_eq_some_iff

theorem exec_append {s s'' : S} {ls ls' : List L} :
    M.exec s (ls ++ ls') = some s'' ↔ ∃ s', M.exec s ls = some s' ∧ M.exec s' ls' = some s'' := by
  induction ls generalizing s with
  | nil => exact ⟨fun h => ⟨s, rfl, h⟩, fun ⟨_, h, h'⟩ => Option.some.inj h ▸ h'⟩
  | cons l ls ih =>
    simp only [List.cons_append, exec_cons, ih]
    constructor
    · rintro ⟨t, ht, s', hs', h⟩
      exact ⟨s', ⟨t, ht, hs'⟩, h⟩
    · rintro ⟨s', ⟨t, ht, hs'⟩, h⟩
      exact ⟨t, ht, s', hs', h⟩

theorem along_append {Q : S → L → S → Prop} {s s' : S} {ls ls' : List L}
    (hrun : M.exec s ls = some s') :
    M.Along Q s (ls ++ ls') ↔ M.Along Q s ls ∧ M.Along Q s' ls' := by
  induction ls generalizing s with
  | nil => cases hrun; exact ⟨fun h => ⟨trivial, h⟩, fun h => h.2⟩
  | cons l ls ih =>
    obtain ⟨t, ht, hrest⟩ := M.exec_cons.mp hrun
    constructor
    · intro h
      obtain ⟨h1, h2⟩ := (ih hrest).mp (h t ht).2
      refine ⟨?_, h2⟩
      intro u hu
      obtain rfl := Option.some.inj (ht.symm.trans hu)
      exact ⟨(h t ht).1, h1⟩
    · rintro ⟨h1, h2⟩ u hu
      obtain rfl := Option.some.inj (ht.symm.trans hu)
      exact ⟨(h1 t ht).1, (ih hrest).mpr ⟨(h1 t ht).2, h2⟩⟩

/-- **Run rule.** What every step that meets `Q` keeps, a run of such steps keeps. -/
theorem exec_inv {Q : S → L → S → Prop} (Inv : S → Prop)
    (h : ∀ s l s', Inv s → Q s l s' → M.step s l = some s' → Inv s')
    {s s' : S} {ls : List L} (h0 : Inv s) (hQ : M.Along Q s ls) (hrun : M.exec s ls = some s') :
    Inv s' := by
  induction ls generalizing s with
  | nil => exact Option.some.inj hrun ▸ h0
  | cons l ls ih =>
    obtain ⟨t, ht, hrest⟩ := M.exec_cons.mp hrun
    obtain ⟨hq, hqs⟩ := hQ t ht
    exact ih (h s l t h0 hq ht) hqs hrest

/-- **Step rule.** An invariant that gives `Q` at every enabled step gives it
all along. -/
theorem along_of_inv {Q : S → L → S → Prop} (Inv : S → Prop)
    (h : ∀ s l s', Inv s → M.step s l = some s' → Inv s' ∧ Q s l s') (ls : List L) (s : S)
    (h0 : Inv s) : M.Along Q s ls := by
  induction ls generalizing s with
  | nil => trivial
  | cons l ls ih =>
    intro s' hs'
    obtain ⟨h1, h2⟩ := h s l s' h0 hs'
    exact ⟨h2, ih s' h1⟩

end System
end DevBoards
