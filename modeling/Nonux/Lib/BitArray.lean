import Mathlib.Tactic

/-!
# Bits of an array

An array of words of `w` bits is an array of bits: bit `i` is bit `i % w` of word `i / w`. Code sets
a bit with an `or` and clears it with an `and`; to the bits this is a store to one of them
(`bitAt_setBit`, `bitAt_clearBit`), and only the word of that bit is changed. `setRange` and
`clearRange` are for loops over neighbours, and `clearCount` counts.
-/

namespace Nonux.Lib

open Function

namespace BitArray

variable {w : ℕ} {a : ℕ → BitVec w} {i j n : ℕ}

/-- Bit `i` of the array. -/
def bitAt (a : ℕ → BitVec w) (i : ℕ) : Bool := (a (i / w)).getLsbD (i % w)

/-- Set bit `i`, with an `or`. -/
def setBit (a : ℕ → BitVec w) (i : ℕ) : ℕ → BitVec w :=
  update a (i / w) (a (i / w) ||| 1#w <<< (i % w))

/-- Clear bit `i`, with an `and`. -/
def clearBit (a : ℕ → BitVec w) (i : ℕ) : ℕ → BitVec w :=
  update a (i / w) (a (i / w) &&& ~~~(1#w <<< (i % w)))

/-- The mask of a bit has that bit alone. -/
theorem getLsbD_mask {b c : ℕ} (hb : b < w) : (1#w <<< b).getLsbD c = decide (c = b) := by
  rw [BitVec.getLsbD_shiftLeft]
  rcases lt_trichotomy c b with hlt | rfl | hlt
  · simp [hlt, hlt.ne]
  · simp [hb, Nat.zero_lt_of_lt hb]
  · simp [hlt.ne', Nat.sub_ne_zero_of_lt hlt]

/-- A bit is told by its word and its place. -/
theorem div_mod_inj (hdiv : j / w = i / w) (hmod : j % w = i % w) : j = i := by
  rw [← Nat.div_add_mod j w, ← Nat.div_add_mod i w, hdiv, hmod]

theorem bitAt_setBit (hw : 0 < w) : bitAt (setBit a i) j = (bitAt a j || decide (j = i)) := by
  unfold bitAt setBit
  by_cases hdiv : j / w = i / w
  · rw [hdiv, update_self, BitVec.getLsbD_or, getLsbD_mask (Nat.mod_lt i hw)]
    congr 1
    rw [decide_eq_decide]
    exact ⟨fun hmod => div_mod_inj hdiv hmod, fun h => h ▸ rfl⟩
  · have hne : j ≠ i := fun h => hdiv (h ▸ rfl)
    simp [hdiv, hne]

theorem bitAt_clearBit (hw : 0 < w) : bitAt (clearBit a i) j = (bitAt a j && decide (j ≠ i)) := by
  unfold bitAt clearBit
  by_cases hdiv : j / w = i / w
  · rw [hdiv, update_self, BitVec.getLsbD_and, BitVec.getLsbD_not, getLsbD_mask (Nat.mod_lt i hw)]
    have hiff : j % w = i % w ↔ j = i := ⟨fun hmod => div_mod_inj hdiv hmod, fun h => h ▸ rfl⟩
    simp [Nat.mod_lt j hw, hiff]
  · have hne : j ≠ i := fun h => hdiv (h ▸ rfl)
    simp [hdiv, hne]

/-! ### Neighbours -/

/-- Set `n` bits from bit `i` on. -/
def setRange (a : ℕ → BitVec w) (i : ℕ) : ℕ → ℕ → BitVec w
  | 0 => a
  | n + 1 => setRange (setBit a i) (i + 1) n

/-- Clear `n` bits from bit `i` on. -/
def clearRange (a : ℕ → BitVec w) (i : ℕ) : ℕ → ℕ → BitVec w
  | 0 => a
  | n + 1 => clearRange (clearBit a i) (i + 1) n

theorem bitAt_setRange (hw : 0 < w) (j : ℕ) :
    bitAt (setRange a i n) j = (bitAt a j || decide (i ≤ j ∧ j < i + n)) := by
  induction n generalizing a i with
  | zero => simp [setRange]
  | succ n ih =>
    rw [setRange, ih, bitAt_setBit hw, Bool.or_assoc, ← Bool.decide_or]
    congr 2
    exact propext (by omega)

theorem bitAt_clearRange (hw : 0 < w) (j : ℕ) :
    bitAt (clearRange a i n) j = (bitAt a j && !decide (i ≤ j ∧ j < i + n)) := by
  induction n generalizing a i with
  | zero =>
    have hno : ¬ (i ≤ j ∧ j < i + 0) := by omega
    rw [clearRange, decide_eq_false hno, Bool.not_false, Bool.and_true]
  | succ n ih =>
    have hiff : i ≤ j ∧ j < i + (n + 1) ↔ j = i ∨ i + 1 ≤ j ∧ j < i + 1 + n := by omega
    rw [clearRange, ih, bitAt_clearBit hw, Bool.and_assoc]
    simp only [hiff, Bool.decide_or, Bool.not_or, decide_not]

/-! ### Counting -/

/-- The clear bits among the first `total`. -/
def clearSet (a : ℕ → BitVec w) (total : ℕ) : Finset ℕ :=
  (Finset.range total).filter fun i => bitAt a i = false

/-- How many of the first `total` bits are clear. -/
def clearCount (a : ℕ → BitVec w) (total : ℕ) : ℕ := (clearSet a total).card

/-- All of the `n` bits from bit `i` on have the value `b`. -/
def Run (a : ℕ → BitVec w) (b : Bool) (i n : ℕ) : Prop := ∀ j, i ≤ j → j < i + n → bitAt a j = b

variable {total : ℕ}

theorem mem_clearSet : i ∈ clearSet a total ↔ i < total ∧ bitAt a i = false := by simp [clearSet]

theorem clearSet_setRange (hw : 0 < w) :
    clearSet (setRange a i n) total = clearSet a total \ Finset.Ico i (i + n) := by
  ext j
  simp only [mem_clearSet, bitAt_setRange hw, Finset.mem_sdiff, Finset.mem_Ico,
    Bool.or_eq_false_iff, decide_eq_false_iff_not, and_assoc]

theorem clearSet_clearRange (hw : 0 < w) (h : i + n ≤ total) :
    clearSet (clearRange a i n) total = clearSet a total ∪ Finset.Ico i (i + n) := by
  ext j
  simp only [mem_clearSet, bitAt_clearRange hw, Finset.mem_union, Finset.mem_Ico,
    Bool.and_eq_false_iff, Bool.not_eq_false', decide_eq_true_eq]
  constructor
  · rintro ⟨hj, hclear | hin⟩
    · exact .inl ⟨hj, hclear⟩
    · exact .inr hin
  · rintro (⟨hj, hclear⟩ | hin)
    · exact ⟨hj, .inl hclear⟩
    · exact ⟨by omega, .inr hin⟩

/-- Bits that were clear are set. -/
theorem clearCount_setRange (hw : 0 < w) (h : i + n ≤ total) (hclear : Run a false i n) :
    clearCount (setRange a i n) total + n = clearCount a total := by
  have hsub : Finset.Ico i (i + n) ⊆ clearSet a total := fun j hj => by
    rw [Finset.mem_Ico] at hj
    exact mem_clearSet.mpr ⟨by omega, hclear j hj.1 hj.2⟩
  have hcard := Finset.card_sdiff_add_card_eq_card hsub
  rwa [← clearSet_setRange hw, Nat.card_Ico, Nat.add_sub_cancel_left] at hcard

/-- Bits that were set are cleared. -/
theorem clearCount_clearRange (hw : 0 < w) (h : i + n ≤ total) (hset : Run a true i n) :
    clearCount (clearRange a i n) total = clearCount a total + n := by
  have hdisj : Disjoint (clearSet a total) (Finset.Ico i (i + n)) := Finset.disjoint_left.mpr
      fun j hj hin => by
    rw [Finset.mem_Ico] at hin
    have hclear := (mem_clearSet.mp hj).2
    rw [hset j hin.1 hin.2] at hclear
    cases hclear
  rw [clearCount, clearSet_clearRange hw h, Finset.card_union_of_disjoint hdisj, Nat.card_Ico,
    Nat.add_sub_cancel_left]
  rfl

/-! ### Masks -/

/-- Clearing the low bits rounds down. -/
theorem and_mask_eq {x k : ℕ} (hx : x < 2 ^ 64) (hk : k ≤ 64) :
    x &&& (2 ^ 64 - 2 ^ k) = x / 2 ^ k * 2 ^ k := by
  apply Nat.eq_of_testBit_eq
  intro i
  have hpow : 2 ^ k - 1 < 2 ^ 64 := (Nat.sub_lt (Nat.two_pow_pos k) Nat.one_pos).trans_le
    (Nat.pow_le_pow_right (by norm_num) hk)
  have hmask : (2 ^ 64 - 2 ^ k).testBit i = (decide (i < 64) && !decide (i < k)) := by
    have h := Nat.testBit_two_pow_sub_succ hpow i
    rwa [Nat.testBit_two_pow_sub_one, Nat.sub_add_cancel (Nat.two_pow_pos k)] at h
  have hfloor : (x / 2 ^ k * 2 ^ k).testBit i = (decide (k ≤ i) && x.testBit i) := by
    rw [Nat.testBit_mul_two_pow, Nat.testBit_div_two_pow]
    by_cases hi : k ≤ i
    · rw [Nat.sub_add_cancel hi]
    · simp [hi]
  rw [Nat.testBit_and, hmask, hfloor]
  by_cases hi : i < 64
  · by_cases hlow : i < k
    · simp [hlow]
    · simp [hi, hlow, not_lt.mp hlow]
  · have hhigh : x.testBit i = false :=
      Nat.testBit_lt_two_pow (hx.trans_le (Nat.pow_le_pow_right (by norm_num) (not_lt.mp hi)))
    simp [hhigh]

end BitArray

end Nonux.Lib
