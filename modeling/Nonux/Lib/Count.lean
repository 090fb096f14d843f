import Mathlib.Algebra.BigOperators.Group.Finset.Basic
import Mathlib.Algebra.Order.BigOperators.Group.Finset
import Mathlib.Data.Fintype.BigOperators
import Mathlib.Tactic

/-!
# Counting over a family that is updated in place

A table, an array or a pool is a family `f : ι → α` over a finite index type, and
a store into it is `update f i a`. What such code counts by hand (a live
counter, a reference count) is a sum over the family. This module says how a sum
changes under one store, in the form the code's own arithmetic has: what was
there before is added on one side, what is there now on the other, so that no
subtraction occurs.

* `sumOver g f` is the sum of the weights `g (f i)`, and `sumOver_update` its
  change under a store.
* `countOf P f` is the number of indices at which `f` satisfies `P`.
* `heldBy name f` is the number of references to each object that a family of
  holders has, when a holder has at most one and `name` says to what.
-/

namespace Nonux.Lib

open Function Finset

universe u v

variable {ι : Type u} {α : Type v} [Fintype ι]

/-- The total weight of the family `f`. -/
def sumOver (g : α → ℕ) (f : ι → α) : ℕ := ∑ i, g (f i)

/-- The number of indices at which the family `f` satisfies `P`. -/
def countOf (P : α → Prop) [DecidablePred P] (f : ι → α) : ℕ := sumOver (fun a => if P a then 1 else 0) f

section Update

variable [DecidableEq ι]

/-- **A store moves one weight**: the old one leaves the sum, the new one enters it. -/
theorem sumOver_update (g : α → ℕ) (f : ι → α) (i : ι) (a : α) :
    sumOver g (update f i a) + g (f i) = sumOver g f + g a := by
  unfold sumOver
  have hnew := add_sum_erase univ (fun j => g (update f i a j)) (mem_univ i)
  have hold := add_sum_erase univ (fun j => g (f j)) (mem_univ i)
  have hrest : ∑ j ∈ univ.erase i, g (update f i a j) = ∑ j ∈ univ.erase i, g (f j) := by
    refine sum_congr rfl fun j hj => ?_
    rw [update_of_ne (ne_of_mem_erase hj)]
  simp only [update_self] at hnew
  omega

theorem countOf_update (P : α → Prop) [DecidablePred P] (f : ι → α) (i : ι) (a : α) :
    countOf P (update f i a) + (if P (f i) then 1 else 0) = countOf P f + (if P a then 1 else 0) :=
  sumOver_update _ f i a

end Update

theorem le_sumOver (g : α → ℕ) (f : ι → α) (i : ι) : g (f i) ≤ sumOver g f :=
  single_le_sum (f := fun j => g (f j)) (fun _ _ => Nat.zero_le _) (mem_univ i)

theorem sumOver_eq_zero_iff {g : α → ℕ} {f : ι → α} : sumOver g f = 0 ↔ ∀ i, g (f i) = 0 := by
  simp [sumOver, sum_eq_zero_iff]

theorem countOf_eq_zero_iff {P : α → Prop} [DecidablePred P] {f : ι → α} :
    countOf P f = 0 ↔ ∀ i, ¬ P (f i) := by
  simp [countOf, sumOver_eq_zero_iff]

/-- The count is the size of the index type when no index fails `P`. -/
theorem countOf_eq_card_iff {P : α → Prop} [DecidablePred P] {f : ι → α} :
    countOf P f = Fintype.card ι ↔ ∀ i, P (f i) := by
  have hsplit : countOf P f + countOf (fun a => ¬ P a) f = Fintype.card ι := by
    unfold countOf sumOver
    rw [← sum_add_distrib]
    have : ∀ i ∈ univ, ((if P (f i) then 1 else 0) + if ¬ P (f i) then 1 else 0) = 1 := by
      intro i _
      by_cases h : P (f i) <;> simp [h]
    rw [sum_congr rfl this]
    simp
  constructor
  · intro h i
    have hz : countOf (fun a => ¬ P a) f = 0 := by omega
    exact not_not.mp (countOf_eq_zero_iff.mp hz i)
  · intro h
    have hz : countOf (fun a => ¬ P a) f = 0 := countOf_eq_zero_iff.mpr fun i hi => hi (h i)
    omega

/-! ### References held -/

section Held

universe w

variable {R : Type w} [DecidableEq R]

/-- One reference to the object named, or none. -/
def oneRef (o : Option R) : R → ℕ := fun r => if o = some r then 1 else 0

@[simp] theorem oneRef_none : oneRef (none : Option R) = 0 := by
  funext r; simp [oneRef]

@[simp] theorem oneRef_some_self (r : R) : oneRef (some r) r = 1 := by simp [oneRef]

theorem oneRef_some_of_ne {r r' : R} (h : r ≠ r') : oneRef (some r) r' = 0 := by simp [oneRef, h]

/-- How many holders of the family have a reference to each object. -/
def heldBy (name : α → Option R) (f : ι → α) : R → ℕ := fun r => countOf (fun a => name a = some r) f

/-- **A store moves one reference**: the old holder's leaves, the new holder's enters. -/
theorem heldBy_update [DecidableEq ι] (name : α → Option R) (f : ι → α) (i : ι) (a : α) :
    heldBy name (update f i a) + oneRef (name (f i)) = heldBy name f + oneRef (name a) := by
  funext r
  exact countOf_update (fun a => name a = some r) f i a

theorem heldBy_pos {name : α → Option R} {f : ι → α} {i : ι} {r : R} (h : name (f i) = some r) :
    0 < heldBy name f r := by
  have := le_sumOver (fun a => if name a = some r then 1 else 0) f i
  simp only [h, if_true] at this
  exact this

theorem heldBy_eq_zero {name : α → Option R} {f : ι → α} (h : ∀ i, name (f i) = none) :
    heldBy name f = 0 := by
  funext r
  exact countOf_eq_zero_iff.mpr fun i hi => by simp [h i] at hi

end Held

/-! ### Listing each once -/

/-- The list has exactly the elements with the property, each once. -/
def Enumerates {α : Type u} (l : List α) (P : α → Prop) : Prop := l.Nodup ∧ ∀ a, a ∈ l ↔ P a

namespace Enumerates

variable {α : Type u} {l : List α} {P Q : α → Prop}

theorem congr (h : Enumerates l P) (hPQ : ∀ a, P a ↔ Q a) : Enumerates l Q :=
  ⟨h.1, fun a => (h.2 a).trans (hPQ a)⟩

theorem nil (h : ∀ a, ¬ P a) : Enumerates [] P := ⟨List.nodup_nil, fun a => by simp [h a]⟩

/-- One more element. -/
theorem cons {a : α} (h : Enumerates l P) (ha : ¬ P a) : Enumerates (a :: l) fun b => b = a ∨ P b :=
  ⟨List.nodup_cons.mpr ⟨fun hmem => ha ((h.2 a).mp hmem), h.1⟩, fun b => by rw [List.mem_cons, h.2]⟩

/-- One less. -/
theorem erase [DecidableEq α] (h : Enumerates l P) (a : α) :
    Enumerates (l.erase a) fun b => b ≠ a ∧ P b :=
  ⟨h.1.erase a, fun b => by rw [h.1.mem_erase_iff, h.2]⟩

/-- How often an element is listed. -/
theorem count_eq [DecidableEq α] [DecidablePred P] (h : Enumerates l P) (a : α) :
    l.count a = if P a then 1 else 0 := by
  split_ifs with ha
  · exact List.count_eq_one_of_mem h.1 ((h.2 a).mpr ha)
  · exact List.count_eq_zero_of_not_mem fun hmem => ha ((h.2 a).mp hmem)

end Enumerates

end Nonux.Lib
