import Nonux.Lib.Count

/-!
# Fixed pools of reference-counted slots

A pool has a fixed number of slots, handed out lowest first, each with a reference
count of its own. `close` drops one reference and frees the slot with the last one;
`retain` adds one and does nothing to a slot that is free. Outside the pool a slot
is named by its index plus one, with 0 for no slot.

`RefPool.Counts p c` says that the counts kept in the pool are the numbers `c` of
references really held under each id: a slot in use has exactly that many, at least
one, and a slot with none is free. Allocating, retaining and closing keep it, with
`c` moving by one reference.
-/

namespace Nonux.Lib

open Function

universe u

/-- A slot in use: its count and what it holds. -/
structure RefSlot (α : Type u) where
  refs : ℕ
  val : α
  deriving DecidableEq, Repr

/-- A pool of `n` slots; a free slot is `none`. -/
abbrev RefPool (n : ℕ) (α : Type u) := Fin n → Option (RefSlot α)

/-- The slot a 32-bit id names. -/
def idToIdx (n : ℕ) (id : UInt32) : Option (Fin n) :=
  if h : id.toNat = 0 ∨ n < id.toNat then none else some ⟨id.toNat - 1, by omega⟩

/-- The id that names a slot. -/
def idxToId {n : ℕ} (i : Fin n) : UInt32 := UInt32.ofNat (i + 1)

theorem toNat_idxToId {n : ℕ} (hn : n < 2 ^ 32) (i : Fin n) : (idxToId i).toNat = i + 1 := by
  rw [idxToId, UInt32.toNat_ofNat']
  exact Nat.mod_eq_of_lt (by omega)

theorem idxToId_ne_zero {n : ℕ} (hn : n < 2 ^ 32) (i : Fin n) : idxToId i ≠ 0 := by
  rw [ne_eq, ← UInt32.toNat_inj, toNat_idxToId hn]
  simp

theorem idToIdx_eq_some_iff {n : ℕ} (hn : n < 2 ^ 32) {id : UInt32} {i : Fin n} :
    idToIdx n id = some i ↔ id = idxToId i := by
  have hi := i.isLt
  rw [← UInt32.toNat_inj, toNat_idxToId hn]
  unfold idToIdx
  split_ifs with h
  · simp only [false_iff]; omega
  · rw [Option.some.injEq, Fin.ext_iff]; dsimp only; omega

namespace RefPool

variable {n : ℕ} {α : Type u}

/-- A pool with every slot free. -/
def empty : RefPool n α := fun _ => none

/-- The slot an allocation's scan stops at. -/
def firstFree (p : RefPool n α) : Option (Fin n) := (List.finRange n).find? fun i => (p i).isNone

/-- Hand out the first free slot, with one reference. -/
def alloc (p : RefPool n α) (a : α) : Option (RefPool n α × Fin n) :=
  p.firstFree.map fun i => (update p i (some ⟨1, a⟩), i)

/-- Add a reference to a slot in use. -/
def retain (p : RefPool n α) (i : Fin n) : RefPool n α :=
  match p i with
  | none => p
  | some s => update p i (some { s with refs := s.refs + 1 })

/-- `if (refs > 0 && --refs > 0) return;`, and otherwise free the slot. -/
def close (p : RefPool n α) (i : Fin n) : RefPool n α :=
  match p i with
  | none => p
  | some s => update p i (if 1 < s.refs then some { s with refs := s.refs - 1 } else none)

/-- `retain` of the slot an id names. -/
def retainId (p : RefPool n α) (id : UInt32) : RefPool n α :=
  match idToIdx n id with
  | none => p
  | some i => p.retain i

/-- `close` of the slot an id names. -/
def closeId (p : RefPool n α) (id : UInt32) : RefPool n α :=
  match idToIdx n id with
  | none => p
  | some i => p.close i

/-- The reference count of the slot an id names, if that is in use. -/
def refsOf (p : RefPool n α) (id : UInt32) : Option ℕ := (idToIdx n id).bind fun i => (p i).map (·.refs)

theorem alloc_eq_some {p p' : RefPool n α} {a : α} {i : Fin n} (h : p.alloc a = some (p', i)) :
    p i = none ∧ p' = update p i (some ⟨1, a⟩) := by
  simp only [alloc, Option.map_eq_some_iff] at h
  obtain ⟨j, hf, heq⟩ := h
  cases heq
  exact ⟨by simpa using List.find?_some hf, rfl⟩

/-- An open fails and leaves the pool alone, or takes a free slot, with one reference. -/
def Opened (p p' : RefPool n α) (id : UInt32) : Prop :=
  id = 0 ∧ p' = p ∨ ∃ i a, p i = none ∧ id = idxToId i ∧ p' = update p i (some ⟨1, a⟩)

/-! ### What one operation does to the counts -/

section RefsOf

variable (hn : n < 2 ^ 32)

include hn

theorem refsOf_idxToId (p : RefPool n α) (i : Fin n) : p.refsOf (idxToId i) = (p i).map (·.refs) := by
  rw [refsOf, (idToIdx_eq_some_iff hn).mpr rfl]; rfl

/-- A store to slot `i` is seen under its id alone. -/
theorem refsOf_update (p : RefPool n α) (i : Fin n) (o : Option (RefSlot α)) (id : UInt32) :
    RefPool.refsOf (update p i o) id = if id = idxToId i then o.map (·.refs) else p.refsOf id := by
  split_ifs with h
  · subst h
    rw [refsOf_idxToId hn, update_self]
  · unfold refsOf
    cases hid : idToIdx n id with
    | none => rfl
    | some j =>
      have hji : j ≠ i := fun hji => h ((idToIdx_eq_some_iff hn).mp (hji ▸ hid))
      simp only [Option.bind_some, update_of_ne hji]

/-- An open changes no count, or gives a free id its first reference. -/
theorem Opened.refsOf {p p' : RefPool n α} {id : UInt32} (h : Opened p p' id) :
    (id = 0 ∧ p'.refsOf = p.refsOf) ∨
      id ≠ 0 ∧ p.refsOf id = none ∧ ∀ id', p'.refsOf id' = if id' = id then some 1
      else p.refsOf id' := by
  rcases h with ⟨rfl, rfl⟩ | ⟨i, a, hfree, rfl, rfl⟩
  · exact .inl ⟨rfl, rfl⟩
  · refine .inr ⟨idxToId_ne_zero hn i, by simp [refsOf_idxToId hn, hfree], fun id' => ?_⟩
    rw [refsOf_update hn]
    rfl

theorem retainId_idxToId {p : RefPool n α} {i : Fin n} {s : RefSlot α} (h : p i = some s) :
    p.retainId (idxToId i) = update p i (some { s with refs := s.refs + 1 }) := by
  simp only [retainId, (idToIdx_eq_some_iff hn).mpr rfl, retain, h]

theorem closeId_idxToId {p : RefPool n α} {i : Fin n} {s : RefSlot α} (h : p i = some s) :
    p.closeId (idxToId i) =
      update p i (if 1 < s.refs then some { s with refs := s.refs - 1 } else none) := by
  simp only [closeId, (idToIdx_eq_some_iff hn).mpr rfl, close, h]

theorem refsOf_retainId (p : RefPool n α) (id id' : UInt32) :
    (p.retainId id).refsOf id' = if id' = id then (p.refsOf id).map (· + 1) else p.refsOf id' := by
  unfold retainId
  cases hid : idToIdx n id with
  | none =>
    have : p.refsOf id = none := by rw [refsOf, hid]; rfl
    split_ifs with h <;> simp [*]
  | some i =>
    obtain rfl := (idToIdx_eq_some_iff hn).mp hid
    rw [refsOf_idxToId hn]
    cases hp : p i with
    | none => simp only [retain, hp]; split_ifs with h <;> simp [*, refsOf_idxToId hn]
    | some s => simp only [retain, hp, refsOf_update hn]; rfl

theorem refsOf_closeId (p : RefPool n α) (id id' : UInt32) :
    (p.closeId id).refsOf id' =
      if id' = id then (p.refsOf id).bind (fun k => if 1 < k then some (k - 1) else none)
      else p.refsOf id' := by
  unfold closeId
  cases hid : idToIdx n id with
  | none =>
    have : p.refsOf id = none := by rw [refsOf, hid]; rfl
    split_ifs with h <;> simp [*]
  | some i =>
    obtain rfl := (idToIdx_eq_some_iff hn).mp hid
    rw [refsOf_idxToId hn]
    cases hp : p i with
    | none => simp only [close, hp]; split_ifs with h <;> simp [*, refsOf_idxToId hn]
    | some s =>
      simp only [close, hp, refsOf_update hn, Option.map_some, Option.bind_some]
      split_ifs <;> rfl

end RefsOf

/-! ### Counts that are right -/

/-- The count kept under each id is the number of references held under it, and a slot
with none is free. -/
def Counts (p : RefPool n α) (c : UInt32 → ℕ) : Prop :=
  ∀ id, p.refsOf id = if c id = 0 then none else some (c id)

theorem counts_empty : (empty : RefPool n α).Counts 0 := fun id => by
  cases hid : idToIdx n id <;> simp [refsOf, hid, empty]

section Counts

variable (hn : n < 2 ^ 32)

include hn

variable {p : RefPool n α} {c : UInt32 → ℕ} {id : UInt32}

/-- An id with a reference names a slot in use, with that count. -/
theorem Counts.inUse (h : p.Counts c) (hid : 0 < c id) :
    ∃ i s, id = idxToId i ∧ p i = some s ∧ s.refs = c id := by
  have hrefs := h id
  rw [if_neg hid.ne', refsOf, Option.bind_eq_some_iff] at hrefs
  obtain ⟨i, hi, hs⟩ := hrefs
  obtain ⟨s, hs, hrefs⟩ := Option.map_eq_some_iff.mp hs
  exact ⟨i, s, (idToIdx_eq_some_iff hn).mp hi, hs, hrefs⟩

theorem Counts.alloc {i : Fin n} {a : α} (h : p.Counts c) (hfree : p i = none) :
    Counts (update p i (some ⟨1, a⟩)) (c + oneRef (some (idxToId i))) := by
  intro id
  rw [refsOf_update hn]
  by_cases hid : id = idxToId i
  · have hnone := h id
    rw [hid, refsOf_idxToId hn, hfree] at hnone
    have : c (idxToId i) = 0 := by by_contra hne; simp [hne] at hnone
    simp [hid, this]
  · rw [if_neg hid, Pi.add_apply, oneRef_some_of_ne (Ne.symm hid), Nat.add_zero]
    exact h id

theorem Counts.retain (h : p.Counts c) (hpos : 0 < c id) :
    (p.retainId id).Counts (c + oneRef (some id)) := by
  intro id'
  rw [refsOf_retainId hn]
  by_cases hid : id' = id
  · rw [if_pos hid, h id, if_neg hpos.ne', hid]; simp
  · rw [if_neg hid, Pi.add_apply, oneRef_some_of_ne (Ne.symm hid), Nat.add_zero]
    exact h id'

theorem Counts.close (h : p.Counts (c + oneRef (some id))) : (p.closeId id).Counts c := by
  intro id'
  rw [refsOf_closeId hn]
  by_cases hid : id' = id
  · subst hid
    rw [if_pos rfl, h id']
    by_cases hzero : c id' = 0 <;> simp [hzero, Nat.pos_iff_ne_zero]
  · rw [if_neg hid, h id', Pi.add_apply, oneRef_some_of_ne (Ne.symm hid), Nat.add_zero]

end Counts

end RefPool

end Nonux.Lib
