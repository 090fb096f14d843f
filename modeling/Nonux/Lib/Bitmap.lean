import Mathlib.Tactic

/-!
# Bitmaps

A bitmap is an array of words. `claim` takes the lowest bit that is clear, as code does it with a
word at a time: it looks for a word with a clear bit, isolates the lowest one by `~x & (x + 1)`, and
counts shifts to find its number.

* `claim_eq_some`, `claim_eq_none`: what was taken, and when there is nothing to take.
-/

namespace Nonux.Lib

/-! ### One word -/

section Word

variable {w : ℕ} {x v : BitVec w} {i : ℕ}

/-- The lowest clear bit, alone. -/
def lowestClear (x : BitVec w) : BitVec w := ~~~x &&& (x + 1#w)

theorem getLsbD_lowestClear :
    (lowestClear x).getLsbD i = true ↔ i < w ∧ x.getLsbD i = false ∧ ∀ j < i, x.getLsbD j = true := by
  have hneg : x + 1#w = -(~~~x) := by rw [BitVec.neg_eq_not_add, BitVec.not_not]
  rw [lowestClear, hneg, BitVec.getLsbD_and, BitVec.getLsbD_neg, BitVec.getLsbD_not]
  by_cases hi : i < w
  · have hlow : (∃ j < i, (~~~x).getLsbD j = true) ↔ ¬ ∀ j < i, x.getLsbD j = true := by
      push Not
      refine exists_congr fun j => and_congr_right fun hj => ?_
      rw [BitVec.getLsbD_not]
      simp [hj.trans hi]
    simp only [hlow, hi, decide_true, Bool.true_and, true_and, decide_not]
    cases x.getLsbD i <;> simp
  · simp [hi]

theorem exists_lowestClear (hx : x ≠ BitVec.allOnes w) : ∃ i, (lowestClear x).getLsbD i = true := by
  have hclear : ∃ i, i < w ∧ x.getLsbD i = false := by
    by_contra hno
    push Not at hno
    refine hx (BitVec.eq_of_getLsbD_eq fun i hi => ?_)
    simpa [hi] using hno i hi
  classical
  refine ⟨Nat.find hclear, getLsbD_lowestClear.mpr
    ⟨(Nat.find_spec hclear).1, (Nat.find_spec hclear).2, fun j hj => ?_⟩⟩
  have := Nat.find_min hclear hj
  simpa [hj.trans (Nat.find_spec hclear).1] using this

/-- Shift until the lowest bit is set, and count. -/
def countShifts : ℕ → BitVec w → ℕ
  | 0, _ => 0
  | fuel + 1, v => if v.getLsbD 0 then 0 else countShifts fuel (v >>> 1) + 1

theorem countShifts_eq {fuel : ℕ} (hi : v.getLsbD i = true) (hlow : ∀ j < i, v.getLsbD j = false)
    (hfuel : i < fuel) : countShifts fuel v = i := by
  induction fuel generalizing v i with
  | zero => omega
  | succ fuel ih =>
    unfold countShifts
    cases i with
    | zero => rw [if_pos hi]
    | succ i =>
      rw [if_neg (by simp [hlow 0 (Nat.succ_pos i)]), ih (i := i)]
      · rwa [BitVec.getLsbD_ushiftRight, Nat.add_comm]
      · intro j hj
        rw [BitVec.getLsbD_ushiftRight, Nat.add_comm]
        exact hlow (j + 1) (Nat.succ_lt_succ hj)
      · omega

theorem countShifts_lowestClear (hi : (lowestClear x).getLsbD i = true) :
    countShifts w (lowestClear x) = i := by
  obtain ⟨hlt, hclear, -⟩ := getLsbD_lowestClear.mp hi
  refine countShifts_eq hi (fun j hj => ?_) hlt
  rw [Bool.eq_false_iff]
  intro hset
  obtain ⟨-, hj', -⟩ := getLsbD_lowestClear.mp hset
  rw [(getLsbD_lowestClear.mp hi).2.2 j hj] at hj'
  cases hj'

end Word

/-! ### Several words -/

/-- Words of `w` bits. -/
structure Bitmap (n w : ℕ) where
  word : Fin n → BitVec w

namespace Bitmap

variable {n w : ℕ} {m m' : Bitmap n w} {i j : ℕ}

/-- No bit is set. -/
def empty : Bitmap n w := ⟨fun _ => 0#w⟩

/-- Store a word. -/
def setWord (m : Bitmap n w) (k : Fin n) (x : BitVec w) : Bitmap n w := ⟨Function.update m.word k x⟩

/-- A bit, by its number. -/
def test (m : Bitmap n w) (i : ℕ) : Bool :=
  if h : i / w < n then (m.word ⟨i / w, h⟩).getLsbD (i % w) else false

/-- Take the lowest bit that is clear. -/
def claim (m : Bitmap n w) : Option (Bitmap n w × ℕ) :=
  (List.finRange n).findSome? fun k =>
    if m.word k ≠ BitVec.allOnes w then
      some (m.setWord k (m.word k ||| lowestClear (m.word k)), k * w + countShifts w
        (lowestClear (m.word k)))
    else none

/-- Clear a bit. -/
def release (m : Bitmap n w) (i : ℕ) : Bitmap n w :=
  if h : i / w < n then m.setWord ⟨i / w, h⟩ (m.word ⟨i / w, h⟩ &&& ~~~(1#w <<< (i % w))) else m

@[simp] theorem test_empty (i : ℕ) : (empty : Bitmap n w).test i = false := by
  unfold test
  split_ifs <;> simp [empty]

/-- The word and the place of a bit. -/
theorem mul_add_div_mod (k : Fin n) {b : ℕ} (hb : b < w) :
    (k * w + b) / w = k ∧ (k * w + b) % w = b := by
  rw [Nat.mul_comm, Nat.mul_add_div (Nat.zero_lt_of_lt hb), Nat.div_eq_of_lt hb, Nat.mul_add_mod,
    Nat.mod_eq_of_lt hb]
  exact ⟨Nat.add_zero _, rfl⟩

theorem mul_add_lt (k : Fin n) {b : ℕ} (hb : b < w) : k * w + b < n * w :=
  calc k * w + b < k * w + w := Nat.add_lt_add_left hb _
    _ = (k + 1) * w := (Nat.succ_mul _ _).symm
    _ ≤ n * w := Nat.mul_le_mul_right _ k.isLt

/-- The bits of one word. -/
theorem test_mul_add (k : Fin n) {b : ℕ} (hb : b < w) : m.test (k * w + b) = (m.word k).getLsbD b := by
  obtain ⟨hdiv, hmod⟩ := mul_add_div_mod k hb
  simp [test, hdiv, hmod]

theorem exists_of_lt (hi : i < n * w) : ∃ (k : Fin n) (b : ℕ), b < w ∧ i = k * w + b := by
  have hw : 0 < w := by
    rcases Nat.eq_zero_or_pos w with rfl | hw
    · simp at hi
    · exact hw
  exact ⟨⟨i / w, Nat.div_lt_of_lt_mul (by rwa [Nat.mul_comm])⟩, i % w, Nat.mod_lt _ hw,
    by rw [Nat.mul_comm]; exact (Nat.div_add_mod i w).symm⟩

theorem test_of_le (hi : n * w ≤ i) : m.test i = false := by
  unfold test
  split_ifs with h
  · rcases Nat.eq_zero_or_pos w with rfl | hw
    · simp
    · exact absurd (Nat.le_div_iff_mul_le hw |>.mpr hi) (Nat.not_le_of_lt h)
  · rfl

/-- The bits after one word has been changed. -/
theorem test_update {k : Fin n} {x : BitVec w} {b : ℕ} (hb : b < w) (l : Fin n) :
    (m.setWord k x).test (l * w + b) = if l = k then x.getLsbD b else m.test (l * w + b) := by
  rw [test_mul_add l hb, test_mul_add l hb]
  split_ifs with hl
  · simp [hl, setWord]
  · simp [hl, setWord]

/-- Two numbers of bits are the same when word and place are. -/
theorem mul_add_inj {k l : Fin n} {b c : ℕ} (hb : b < w) (hc : c < w) :
    (l : ℕ) * w + c = k * w + b ↔ l = k ∧ c = b := by
  constructor
  · intro h
    have hdiv := (mul_add_div_mod l hc).1
    rw [h, (mul_add_div_mod k hb).1] at hdiv
    obtain rfl : k = l := Fin.ext hdiv
    exact ⟨rfl, Nat.add_left_cancel h⟩
  · rintro ⟨rfl, rfl⟩
    rfl

/-- What was taken is the lowest clear bit, and is set now. -/
theorem claim_eq_some (h : m.claim = some (m', i)) :
    i < n * w ∧ m.test i = false ∧ ∀ j, m'.test j = (m.test j || decide (j = i)) := by
  obtain ⟨k, -, hk⟩ := List.exists_of_findSome?_eq_some h
  split_ifs at hk with hfull
  obtain ⟨rfl, rfl⟩ := Prod.mk.inj (Option.some.inj hk)
  obtain ⟨b, hset⟩ := exists_lowestClear hfull
  obtain ⟨hb, hclear, -⟩ := getLsbD_lowestClear.mp hset
  rw [countShifts_lowestClear hset]
  refine ⟨mul_add_lt k hb, by rw [test_mul_add k hb, hclear], fun j => ?_⟩
  rcases Nat.lt_or_ge j (n * w) with hj | hj
  · obtain ⟨l, c, hc, rfl⟩ := exists_of_lt hj
    rw [test_update hc, test_mul_add l hc]
    simp only [mul_add_inj hb hc]
    by_cases hl : l = k
    · subst hl
      rw [if_pos rfl, BitVec.getLsbD_or]
      by_cases hcb : c = b
      · subst hcb
        simp [hset]
      · have hoff : (lowestClear (m.word l)).getLsbD c = false := by
          rw [Bool.eq_false_iff]
          intro hset'
          exact hcb ((countShifts_lowestClear hset').symm.trans (countShifts_lowestClear hset))
        simp [hoff, hcb]
    · simp [hl]
  · rw [test_of_le hj, test_of_le hj]
    simpa using (Nat.lt_of_lt_of_le (mul_add_lt k hb) hj).ne'

/-- There is nothing to take when all bits are set. -/
theorem claim_eq_none : m.claim = none ↔ ∀ i < n * w, m.test i = true := by
  unfold claim
  rw [List.findSome?_eq_none_iff]
  constructor
  · intro h i hi
    obtain ⟨k, b, hb, rfl⟩ := exists_of_lt hi
    have hfull : m.word k = BitVec.allOnes w := by
      by_contra hno
      have := h k (List.mem_finRange k)
      rw [if_pos hno] at this
      cases this
    rw [test_mul_add k hb, hfull]
    simp [hb]
  · intro h k _
    rw [if_neg]
    refine not_not.mpr (BitVec.eq_of_getLsbD_eq fun b hb => ?_)
    rw [← test_mul_add k hb, h _ (mul_add_lt k hb)]
    simp [hb]

theorem test_release (hi : i < n * w) (j : ℕ) : (m.release i).test j = (m.test j && decide (j ≠ i)) := by
  rcases Nat.lt_or_ge j (n * w) with hj | hj
  · obtain ⟨k, b, hb, rfl⟩ := exists_of_lt hi
    obtain ⟨l, c, hc, rfl⟩ := exists_of_lt hj
    obtain ⟨hdiv, hmod⟩ := mul_add_div_mod k hb
    have hrelease : m.release (k * w + b) = m.setWord k (m.word k &&& ~~~(1#w <<< b)) := by
      simp [release, hdiv, hmod]
    rw [hrelease, test_update hc, test_mul_add l hc]
    simp only [ne_eq, mul_add_inj hb hc]
    by_cases hl : l = k
    · subst hl
      by_cases hcb : c = b
      · subst hcb
        simp [hc]
      · have hlow : c < b ∨ ¬ c < b ∧ c - b ≠ 0 := by omega
        rcases hlow with hlow | ⟨hlow, hne⟩
        · simp [hc, hcb, hlow]
        · simp [hc, hcb, hlow, hne]
    · simp [hl]
  · rw [test_of_le hj, test_of_le hj]
    rfl

end Bitmap

end Nonux.Lib
