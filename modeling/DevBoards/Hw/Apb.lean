import Mathlib.Data.List.FinRange
import Mathlib.Data.List.ReduceOption
import DevBoards.Core.Machine

/-!
# APB

`Bridge` is an address decoder: `ports` blocks of equal size from a base
address on. It selects the port whose block holds the address, and passes the
offset within the block down.

`bus` watches a requester cycle by cycle, with any type of request (direction,
address, data, strobes). A transfer is one setup cycle and then access cycles
up to the first in which the completer is ready.

* `Bridge.route_slot`: an address in block `i` selects port `i` and no other.
* `Bridge.mem_route`: what any address selects.
* `penable_psel`: a requester that keeps to the protocol never raises
  `PENABLE` without `PSEL`.
* `completed_eq`: its transfers complete where all three signals are high.
-/
namespace DevBoards.Apb

structure Bridge where
  base : Nat
  block : Nat
  ports : Nat

namespace Bridge

variable (b : Bridge)

def selects (addr : Nat) (i : Fin b.ports) : Bool :=
  b.base + i * b.block ≤ addr && addr < b.base + (i + 1) * b.block

/-- The ports selected, with the address each sees. -/
def route (addr : Nat) : List (Fin b.ports × Nat) :=
  ((List.finRange b.ports).filter (b.selects addr)).map fun i => (i, addr % b.block)

theorem selects_slot (i j : Fin b.ports) {off : Nat} (h : off < b.block) :
    b.selects (b.base + i * b.block + off) j = decide (j = i) := by
  unfold selects
  rw [Nat.add_one_mul, ← Bool.decide_and, decide_eq_decide]
  constructor
  · rintro ⟨hlo, hhi⟩
    have hle : (j : Nat) ≤ i := by
      by_contra hlt
      have := Nat.mul_le_mul_right b.block (show (i : Nat) + 1 ≤ j by omega)
      rw [Nat.add_one_mul] at this
      omega
    have hge : (i : Nat) ≤ j := by
      by_contra hlt
      have := Nat.mul_le_mul_right b.block (show (j : Nat) + 1 ≤ i by omega)
      rw [Nat.add_one_mul] at this
      omega
    exact Fin.ext (Nat.le_antisymm hle hge)
  · rintro rfl
    omega

/-- **Decode rule.** An address in block `i` goes to port `i` alone. -/
theorem route_slot (hbase : b.block ∣ b.base) (i : Fin b.ports) {off : Nat} (h : off < b.block) :
    b.route (b.base + i * b.block + off) = [(i, off)] := by
  have hsel : b.selects (b.base + i * b.block + off) = fun j => decide (j = i) :=
    funext fun j => b.selects_slot i j h
  have hmod : (b.base + i * b.block + off) % b.block = off := by
    obtain ⟨k, hk⟩ := hbase
    rw [hk, Nat.mul_comm i, ← Nat.mul_add, Nat.mul_add_mod, Nat.mod_eq_of_lt h]
  have hone : (List.finRange b.ports).filter (fun j => decide (j = i)) = [i] := by
    rw [List.filter_eq, List.count_eq_one_of_mem (List.nodup_finRange _) (List.mem_finRange i)]
    rfl
  unfold route
  rw [hsel, hmod, hone]
  rfl

/-- **Exact decode.** A port sees an offset just if the address is in its block. -/
theorem mem_route (hbase : b.block ∣ b.base) {addr off : Nat} {i : Fin b.ports} :
    (i, off) ∈ b.route addr ↔ addr = b.base + i * b.block + off ∧ off < b.block := by
  constructor
  · intro hmem
    obtain ⟨j, hj, heq⟩ := List.mem_map.mp hmem
    cases heq
    obtain ⟨-, hsel⟩ := List.mem_filter.mp hj
    obtain ⟨hlo, hhi⟩ := Bool.and_eq_true_iff.mp hsel
    have hlo := of_decide_eq_true hlo
    have hhi := of_decide_eq_true hhi
    rw [Nat.add_one_mul] at hhi
    obtain ⟨off, rfl⟩ := Nat.exists_eq_add_of_le hlo
    have hoff : off < b.block := by omega
    have hroute := b.route_slot hbase i hoff
    rw [hroute, List.mem_singleton] at hmem
    rw [(Prod.mk.inj hmem).2]
    exact ⟨rfl, hoff⟩
  · rintro ⟨rfl, hoff⟩
    rw [b.route_slot hbase i hoff]
    exact List.mem_singleton_self _

/-- An address selects one port at most. -/
theorem length_route (hbase : b.block ∣ b.base) (addr : Nat) : (b.route addr).length ≤ 1 := by
  cases hroute : b.route addr with
  | nil => exact Nat.zero_le 1
  | cons p ps =>
    have hmem : (p.1, p.2) ∈ b.route addr := hroute ▸ List.mem_cons_self ..
    obtain ⟨rfl, hoff⟩ := (b.mem_route hbase).mp hmem
    rw [← hroute, b.route_slot hbase p.1 hoff]
    exact Nat.le_refl 1

end Bridge

/-! ## The protocol -/

variable {ρ : Type*}

/-- The signals during one clock cycle. -/
structure BusCycle (ρ : Type*) where
  psel : Bool
  penable : Bool
  pready : Bool
  request : ρ

inductive Phase (ρ : Type*)
  | idle
  /-- the setup cycle is over, and the completer was not ready yet -/
  | access (request : ρ)

inductive Event (ρ : Type*)
  | setup (request : ρ)
  | complete (request : ρ)
deriving DecidableEq, Repr

/-- The phase after each cycle, and what happened in it. -/
def bus : Machine (Phase ρ) (BusCycle ρ) (Option (Event ρ)) where
  step
    | .idle, c => if c.psel then (.access c.request, some (.setup c.request)) else (.idle, none)
    | .access r, c => if c.pready then (.idle, some (.complete r)) else (.access r, none)

/-- A transfer starts without `PENABLE`; from then on both selects stay high
and the request stays as it is, up to the cycle that completes it. -/
def Allowed : Phase ρ → BusCycle ρ → Prop
  | .idle, c => c.penable = false
  | .access r, c => c.psel = true ∧ c.penable = true ∧ c.request = r

/-- The request that a cycle completes. -/
def BusCycle.completed? (c : BusCycle ρ) : Option ρ :=
  if c.psel && c.penable && c.pready then some c.request else none

def Event.completed? : Event ρ → Option ρ
  | .setup _ => none
  | .complete r => some r

variable {phase : Phase ρ} {cs : List (BusCycle ρ)}

theorem Allowed.penable {c : BusCycle ρ} (h : Allowed phase c) (henable : c.penable = true) :
    c.psel = true := by
  cases phase with
  | idle => exact absurd (henable.symm.trans h) (by decide)
  | access r => exact h.1

theorem penable_psel (h : bus.Along Allowed phase cs) :
    ∀ c ∈ cs, c.penable = true → c.psel = true := by
  intro c hc
  obtain ⟨phase, hallowed⟩ := bus.along_mem h c hc
  exact hallowed.penable

theorem completed_eq (h : bus.Along Allowed phase cs) :
    cs.filterMap BusCycle.completed? =
      (bus.outs phase cs).reduceOption.filterMap Event.completed? := by
  induction cs generalizing phase with
  | nil => rfl
  | cons c cs ih =>
    obtain ⟨psel, penable, pready, request⟩ := c
    obtain ⟨hallowed, hrest⟩ := h
    have ih := ih hrest
    rw [Machine.outs_cons]
    cases phase with
    | idle =>
      obtain rfl : penable = false := hallowed
      cases psel <;> exact ih
    | access r =>
      obtain ⟨rfl, rfl, rfl⟩ : psel = true ∧ penable = true ∧ request = r := hallowed
      cases pready
      · exact ih
      · exact congrArg (request :: ·) ih

end DevBoards.Apb
