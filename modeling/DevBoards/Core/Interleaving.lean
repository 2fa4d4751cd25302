import Mathlib.Tactic.TypeStar

/-!
# Interleavings of two lists

`Interleaving xs ys zs`: `zs` holds the elements of `xs` and of `ys`, each in
its own order.
-/
namespace DevBoards

variable {α : Type*}

inductive Interleaving : List α → List α → List α → Prop
  | nil : Interleaving [] [] []
  | left (a : α) {xs ys zs : List α} (h : Interleaving xs ys zs) :
      Interleaving (a :: xs) ys (a :: zs)
  | right (a : α) {xs ys zs : List α} (h : Interleaving xs ys zs) :
      Interleaving xs (a :: ys) (a :: zs)

namespace Interleaving

variable {xs ys zs xs' ys' zs' : List α}

theorem append (h : Interleaving xs ys zs) (h' : Interleaving xs' ys' zs') :
    Interleaving (xs ++ xs') (ys ++ ys') (zs ++ zs') := by
  induction h with
  | nil => exact h'
  | left a _ ih => exact .left a ih
  | right a _ ih => exact .right a ih

theorem snoc_left (h : Interleaving xs ys zs) (a : α) :
    Interleaving (xs ++ [a]) ys (zs ++ [a]) := by
  have := h.append (.left a .nil)
  rwa [List.append_nil] at this

theorem snoc_right (h : Interleaving xs ys zs) (a : α) :
    Interleaving xs (ys ++ [a]) (zs ++ [a]) := by
  have := h.append (.right a .nil)
  rwa [List.append_nil] at this

end Interleaving
end DevBoards
