import Mathlib.Tactic.TypeStar

/-!
# Deterministic machines: runs, invariants, simulation

A `Machine` reads one input a step and emits one output. `final` and `outs`
are the state after a list of inputs and the outputs on the way; `Along Q`
says that every step of the run meets `Q`, a condition on the state before
the step and its input.

* `final_inv`: what each step keeps, the run keeps.
* `loop_inv`: what each pass of a loop keeps and establishes.
* `simulation`: two machines whose states stay related produce related
  outputs, step for step. `f` translates inputs and `g` outputs, so the
  second machine may see less of each than the first.
* `final_cascade`: a machine that follows the outputs of another.
-/
namespace DevBoards

structure Machine (S I O : Type*) where
  step : S → I → S × O

namespace Machine

variable {S I O T J P : Type*} (M : Machine S I O)

/-- The state after the inputs. -/
def final (s : S) : List I → S
  | [] => s
  | i :: is => final (M.step s i).1 is

/-- The outputs, one for each input. -/
def outs (s : S) : List I → List O
  | [] => []
  | i :: is => (M.step s i).2 :: outs (M.step s i).1 is

/-- Every step of the run meets `Q`. -/
def Along (Q : S → I → Prop) : S → List I → Prop
  | _, [] => True
  | s, i :: is => Q s i ∧ Along Q (M.step s i).1 is

instance decidableAlong (Q : S → I → Prop) [∀ s i, Decidable (Q s i)] :
    ∀ (s : S) (is : List I), Decidable (M.Along Q s is)
  | _, [] => isTrue trivial
  | s, i :: is => @instDecidableAnd _ _ _ (decidableAlong Q (M.step s i).1 is)

@[simp] theorem final_nil (s : S) : M.final s [] = s := rfl

@[simp] theorem final_cons (s : S) (i : I) (is : List I) :
    M.final s (i :: is) = M.final (M.step s i).1 is := rfl

@[simp] theorem outs_cons (s : S) (i : I) (is : List I) :
    M.outs s (i :: is) = (M.step s i).2 :: M.outs (M.step s i).1 is := rfl

theorem final_append (s : S) (is js : List I) :
    M.final s (is ++ js) = M.final (M.final s is) js := by
  induction is generalizing s with
  | nil => rfl
  | cons i is ih => exact ih _

theorem outs_append (s : S) (is js : List I) :
    M.outs s (is ++ js) = M.outs s is ++ M.outs (M.final s is) js := by
  induction is generalizing s with
  | nil => rfl
  | cons i is ih => simp only [List.cons_append, outs_cons, ih, final_cons]

theorem along_append (Q : S → I → Prop) (s : S) (is js : List I) :
    M.Along Q s (is ++ js) ↔ M.Along Q s is ∧ M.Along Q (M.final s is) js := by
  induction is generalizing s with
  | nil => exact ⟨fun h => ⟨trivial, h⟩, fun h => h.2⟩
  | cons i is ih =>
    constructor
    · intro h
      obtain ⟨h1, h2⟩ := (ih _).mp h.2
      exact ⟨⟨h.1, h1⟩, h2⟩
    · rintro ⟨⟨h1, h2⟩, h3⟩
      exact ⟨h1, (ih _).mpr ⟨h2, h3⟩⟩

theorem along_mono {Q Q' : S → I → Prop} (h : ∀ s i, Q s i → Q' s i) :
    ∀ (is : List I) (s : S), M.Along Q s is → M.Along Q' s is
  | [], _, _ => trivial
  | i :: is, s, ⟨h1, h2⟩ => ⟨h s i h1, along_mono h is _ h2⟩

theorem along_and {Q Q' : S → I → Prop} :
    ∀ (is : List I) (s : S), M.Along Q s is → M.Along Q' s is →
      M.Along (fun s i => Q s i ∧ Q' s i) s is
  | [], _, _, _ => trivial
  | _ :: is, _, h, h' => ⟨⟨h.1, h'.1⟩, along_and is _ h.2 h'.2⟩

theorem along_of_forall {Q : S → I → Prop} {is : List I} (h : ∀ s, ∀ i ∈ is, Q s i) (s : S) :
    M.Along Q s is := by
  induction is generalizing s with
  | nil => trivial
  | cons i is ih =>
    exact ⟨h s i (List.mem_cons_self ..), ih (fun s j hj => h s j (List.mem_cons_of_mem i hj)) _⟩

theorem along_mem {Q : S → I → Prop} {is : List I} {s : S} (h : M.Along Q s is) :
    ∀ i ∈ is, ∃ s, Q s i := by
  induction is generalizing s with
  | nil => exact fun i hi => absurd hi List.not_mem_nil
  | cons j is ih =>
    intro i hi
    rcases List.mem_cons.mp hi with rfl | hi
    · exact ⟨s, h.1⟩
    · exact ih h.2 i hi

theorem mem_outs {o : O} {is : List I} {s : S} (h : o ∈ M.outs s is) :
    ∃ s, ∃ i ∈ is, (M.step s i).2 = o := by
  induction is generalizing s with
  | nil => exact absurd h List.not_mem_nil
  | cons i is ih =>
    rcases List.mem_cons.mp h with rfl | h
    · exact ⟨s, i, List.mem_cons_self .., rfl⟩
    · obtain ⟨s, j, hj, rfl⟩ := ih h
      exact ⟨s, j, List.mem_cons_of_mem i hj, rfl⟩

/-- Steps that keep `Inv` meet what `Inv` gives. -/
theorem along_of_inv {Q : S → I → Prop} (Inv : S → Prop) {is : List I}
    (h : ∀ s, ∀ i ∈ is, Inv s → Q s i ∧ Inv (M.step s i).1) (s : S) (h0 : Inv s) :
    M.Along Q s is := by
  induction is generalizing s with
  | nil => trivial
  | cons i is ih =>
    obtain ⟨hQ, hInv⟩ := h s i (List.mem_cons_self ..) h0
    exact ⟨hQ, ih (fun s j hj => h s j (List.mem_cons_of_mem i hj)) _ hInv⟩

/-- **Run rule.** What every step keeps, the run keeps. -/
theorem final_inv {Q : S → I → Prop} (Inv : S → Prop)
    (h : ∀ s i, Inv s → Q s i → Inv (M.step s i).1) (is : List I) (s : S) (h0 : Inv s)
    (hQ : M.Along Q s is) : Inv (M.final s is) := by
  induction is generalizing s with
  | nil => exact h0
  | cons i is ih => exact ih _ (h s i h0 hQ.1) hQ.2

/-- **Loop rule.** A loop runs `f n` for each `n` in turn. If each pass keeps
`Inv`, meets `Q` on the way, establishes `P n` and keeps what the others
established, then the loop keeps `Inv`, meets `Q` and establishes all of `P`. -/
theorem loop_inv {α : Type*} {Q : S → I → Prop} (Inv : S → Prop) (P : α → S → Prop)
    (f : α → List I)
    (h : ∀ n s, Inv s → M.Along Q s (f n) ∧ Inv (M.final s (f n)) ∧ P n (M.final s (f n)) ∧
      ∀ m, P m s → P m (M.final s (f n)))
    (ns : List α) (s : S) (h0 : Inv s) :
    M.Along Q s (ns.flatMap f) ∧ Inv (M.final s (ns.flatMap f)) ∧
      (∀ n ∈ ns, P n (M.final s (ns.flatMap f))) ∧ ∀ m, P m s → P m (M.final s (ns.flatMap f)) := by
  induction ns generalizing s with
  | nil => exact ⟨trivial, h0, fun n hn => absurd hn List.not_mem_nil, fun _ hm => hm⟩
  | cons n ns ih =>
    obtain ⟨hQ, hInv, hn, hkeep⟩ := h n s h0
    obtain ⟨hQ', hInv', hns, hkeep'⟩ := ih (M.final s (f n)) hInv
    rw [List.flatMap_cons, M.final_append, M.along_append]
    refine ⟨⟨hQ, hQ'⟩, hInv', ?_, ?_⟩
    · intro m hm
      rcases List.mem_cons.mp hm with rfl | hm
      · exact hkeep' _ hn
      · exact hns m hm
    · intro m hm
      exact hkeep' m (hkeep m hm)

/-- **Simulation.** `R` is kept by matching steps and makes their outputs
agree; then it relates the final states and the outputs agree all along. -/
theorem simulation (N : Machine T J P) (R : S → T → Prop) (Q : S → I → Prop) (f : I → J)
    (g : O → P)
    (h : ∀ s t i, R s t → Q s i →
      R (M.step s i).1 (N.step t (f i)).1 ∧ g (M.step s i).2 = (N.step t (f i)).2)
    (is : List I) (s : S) (t : T) (h0 : R s t) (hQ : M.Along Q s is) :
    R (M.final s is) (N.final t (is.map f)) ∧ (M.outs s is).map g = N.outs t (is.map f) := by
  induction is generalizing s t with
  | nil => exact ⟨h0, rfl⟩
  | cons i is ih =>
    obtain ⟨h1, h2⟩ := h s t i h0 hQ.1
    obtain ⟨h3, h4⟩ := ih _ _ h1 hQ.2
    exact ⟨h3, by simp only [outs_cons, List.map_cons, h2, h4]⟩

/-- **Cascade.** `N` is fed the outputs of `M`. If each step does to `π s` what
`N` does with its output, then so does a run. -/
theorem final_cascade (N : Machine T O P) (π : S → T)
    (h : ∀ s i, π (M.step s i).1 = (N.step (π s) (M.step s i).2).1) (is : List I) (s : S) :
    π (M.final s is) = N.final (π s) (M.outs s is) := by
  induction is generalizing s with
  | nil => rfl
  | cons i is ih =>
    rw [final_cons, ih, h]
    rfl

end Machine
end DevBoards
