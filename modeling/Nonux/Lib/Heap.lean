import Mathlib.Tactic

/-!
# A heap that remembers every free

Objects are allocated one after another and an object's identity is its place in
that order, so that an identity is never reused: a pointer kept past a `free`
goes on naming the object it named, and freeing an object twice is visible as a
count of 2. What an allocator does with the memory is left out; what a program
does with its objects, in particular every use after a free, stays expressible.
-/

namespace Nonux.Lib

universe u

/-- An object and how often it has been freed. -/
structure HeapCell (α : Type u) where
  val : α
  frees : ℕ := 0
  deriving DecidableEq, Repr

/-- Every object allocated so far, oldest first. -/
@[ext]
structure Heap (α : Type u) where
  objs : List (HeapCell α) := []
  deriving DecidableEq, Repr

namespace Heap

variable {α : Type u}

/-- The object `i`, if there is one. -/
def get? (h : Heap α) (i : ℕ) : Option (HeapCell α) := h.objs[i]?

/-- The identity the next object gets. -/
def next (h : Heap α) : ℕ := h.objs.length

/-- Allocate an object. -/
def alloc (h : Heap α) (a : α) : Heap α := ⟨h.objs ++ [{ val := a }]⟩

/-- Store to the object `i`. -/
def modify (h : Heap α) (i : ℕ) (f : α → α) : Heap α :=
  ⟨h.objs.modify i fun c => { c with val := f c.val }⟩

/-- Free the object `i`. -/
def free (h : Heap α) (i : ℕ) : Heap α := ⟨h.objs.modify i fun c => { c with frees := c.frees + 1 }⟩

theorem get?_alloc (h : Heap α) (a : α) (j : ℕ) :
    (h.alloc a).get? j = if j = h.next then some { val := a } else h.get? j := by
  rcases lt_trichotomy j h.next with hlt | rfl | hgt
  · rw [if_neg (by omega)]
    exact List.getElem?_append_left hlt
  · rw [if_pos rfl]
    simp [get?, alloc, next]
  · have hlen : (h.alloc a).objs.length ≤ j := by
      simp only [alloc, List.length_append, List.length_singleton]
      exact hgt
    rw [if_neg (by omega), get?, get?, List.getElem?_eq_none hlen, List.getElem?_eq_none (le_of_lt hgt)]

theorem get?_modify (h : Heap α) (i : ℕ) (f : α → α) (j : ℕ) :
    (h.modify i f).get? j = if j = i then (h.get? j).map (fun c => { c with val := f c.val })
    else h.get? j := by
  simp only [get?, modify, List.getElem?_modify]
  rcases eq_or_ne j i with rfl | hne
  · simp
  · simp [hne, hne.symm]

theorem get?_free (h : Heap α) (i : ℕ) (j : ℕ) :
    (h.free i).get? j =
      if j = i then (h.get? j).map (fun c => { c with frees := c.frees + 1 }) else h.get? j := by
  simp only [get?, free, List.getElem?_modify]
  rcases eq_or_ne j i with rfl | hne
  · simp
  · simp [hne, hne.symm]

theorem get?_eq_none_of_next_le {h : Heap α} {i : ℕ} (hi : h.next ≤ i) : h.get? i = none :=
  List.getElem?_eq_none hi

@[simp] theorem next_alloc (h : Heap α) (a : α) : (h.alloc a).next = h.next + 1 := by simp [alloc, next]

@[simp] theorem next_modify (h : Heap α) (i : ℕ) (f : α → α) : (h.modify i f).next = h.next := by
  simp [modify, next]

@[simp] theorem next_free (h : Heap α) (i : ℕ) : (h.free i).next = h.next := by simp [free, next]

end Heap

end Nonux.Lib
