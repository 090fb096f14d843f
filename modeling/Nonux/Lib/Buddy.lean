import Mathlib.Tactic

/-!
# Buddy systems

Memory is a pool of `2 ^ N` pages. A block of order `k` has `2 ^ k` pages and begins at a multiple
of that, so that it is given by a number: block `i` of order `k` has the pages `p` with `p / 2 ^ k =
i`. The two halves of block `i` of order `k + 1` are the blocks `2 * i` and `2 * i + 1` of order
`k`, and they are buddies: their numbers differ in the last bit.

There is a list of free blocks for every order. `take` finds the smallest block that is large enough
and halves it until it is right, and `give` joins a block with its buddy as long as that is free.

## What is proved

`Ok N free used` says that free blocks and those in use cover every page of the pool once, and that
no two free blocks are buddies. `take` and `give` keep it (`Ok.take`, `Ok.give`). The point of the
second part is `Ok.exists_free`: where all pages of a block are free, some free block is as large.
So `take` fails only if there is no room (`Ok.take_eq_none_iff`), and when nothing is in use the
pool is one block (`Ok.free_eq_of_nil`).
-/

namespace Nonux.Lib.Buddy

open Function List

/-! ### Halves and buddies -/

section Arithmetic

variable {i k p q : ℕ}

theorem xor_one_div_two (i : ℕ) : (i ^^^ 1) / 2 = i / 2 := by simp [Nat.xor_div_two]

theorem xor_one_mod_two (i : ℕ) : (i ^^^ 1) % 2 = 1 - i % 2 := by
  have h : (i ^^^ 1) % 2 = 1 ↔ ¬ (i % 2 = 1 ↔ 1 % 2 = 1) := Nat.xor_mod_two_eq_one
  omega

theorem xor_one_ne (i : ℕ) : i ^^^ 1 ≠ i := fun h => by
  have hmod := xor_one_mod_two i
  rw [h] at hmod
  omega

theorem xor_one_xor_one (i : ℕ) : i ^^^ 1 ^^^ 1 = i := by rw [Nat.xor_assoc, Nat.xor_self, Nat.xor_zero]

/-- A number and its buddy have the same half. -/
theorem div_two_eq_iff : q / 2 = i / 2 ↔ q = i ∨ q = i ^^^ 1 := by
  have hdiv := xor_one_div_two i
  have hmod := xor_one_mod_two i
  omega

theorem div_pow_succ (p k : ℕ) : p / 2 ^ (k + 1) = p / 2 ^ k / 2 := by
  rw [Nat.pow_succ, Nat.div_div_eq_div_mul]

/-- A larger block is told by the smaller one. -/
theorem div_pow_eq_div_pow {j : ℕ} (hjk : k ≤ j) (p : ℕ) : p / 2 ^ j = p / 2 ^ k / 2 ^ (j - k) := by
  rw [Nat.div_div_eq_div_mul, ← Nat.pow_add, Nat.add_sub_cancel' hjk]

end Arithmetic

/-- A page is in a block: one for yes. -/
def covers (k i p : ℕ) : ℕ := if p / 2 ^ k = i then 1 else 0

/-- A block is its two halves. -/
theorem covers_halves (k i p : ℕ) :
    covers k (2 * i) p + covers k (2 * i + 1) p = covers (k + 1) i p := by
  unfold covers
  rw [div_pow_succ]
  split_ifs <;> omega

/-- Buddies make a block. -/
theorem covers_buddies (k i p : ℕ) : covers k i p + covers k (i ^^^ 1) p = covers (k + 1) (i / 2) p := by
  have hne := xor_one_ne i
  have hiff : p / 2 ^ k / 2 = i / 2 ↔ p / 2 ^ k = i ∨ p / 2 ^ k = i ^^^ 1 := div_two_eq_iff
  unfold covers
  rw [div_pow_succ]
  split_ifs <;> omega

/-! ### Lists of free blocks -/

/-- The numbers of the free blocks, by their order. -/
abbrev FreeLists := ℕ → List ℕ

variable {N : ℕ} {free : FreeLists} {used : List (ℕ × ℕ)} {k i p : ℕ}

/-- Put a block on its list. -/
def push (free : FreeLists) (k i : ℕ) : FreeLists := update free k (i :: free k)

/-- Take a block from its list. -/
def remove (free : FreeLists) (k i : ℕ) : FreeLists := update free k ((free k).erase i)

theorem push_self (free : FreeLists) (k i : ℕ) : push free k i k = i :: free k := update_self ..

theorem push_of_ne {j : ℕ} (h : j ≠ k) : push free k i j = free j := update_of_ne h ..

theorem remove_self (free : FreeLists) (k i : ℕ) : remove free k i k = (free k).erase i := update_self ..

theorem remove_of_ne {j : ℕ} (h : j ≠ k) : remove free k i j = free j := update_of_ne h ..

theorem mem_of_mem_remove {j m : ℕ} (h : m ∈ remove free k i j) : m ∈ free j := by
  by_cases hj : j = k
  · subst hj
    rw [remove_self] at h
    exact mem_of_mem_erase h
  · rwa [remove_of_ne hj] at h

/-- How many free blocks a page is in. -/
def freeCount (N : ℕ) (free : FreeLists) (p : ℕ) : ℕ :=
  ∑ k ∈ Finset.range (N + 1), (free k).count (p / 2 ^ k)

/-- How many of the blocks in use, given by their orders and numbers, a page is in. -/
def usedCount (used : List (ℕ × ℕ)) (p : ℕ) : ℕ := (used.map fun b => covers b.1 b.2 p).sum

theorem freeCount_update (free : FreeLists) (hk : k ≤ N) (l : List ℕ) (p : ℕ) :
    freeCount N (update free k l) p + (free k).count (p / 2 ^ k) = freeCount N free p + l.count
      (p / 2 ^ k) := by
  have hmem : k ∈ Finset.range (N + 1) := Finset.mem_range.mpr (Nat.lt_succ_of_le hk)
  unfold freeCount
  rw [← Finset.add_sum_erase _ _ hmem, ← Finset.add_sum_erase (Finset.range (N + 1))
    (fun k => (free k).count (p / 2 ^ k)) hmem]
  have hrest : ∑ j ∈ (Finset.range (N + 1)).erase k, (update free k l j).count (p / 2 ^ j) =
      ∑ j ∈ (Finset.range (N + 1)).erase k, (free j).count (p / 2 ^ j) :=
    Finset.sum_congr rfl fun j hj => by rw [update_of_ne (Finset.ne_of_mem_erase hj)]
  rw [hrest, update_self]
  omega

theorem freeCount_push (hk : k ≤ N) (i p : ℕ) :
    freeCount N (push free k i) p = freeCount N free p + covers k i p := by
  have h := freeCount_update free hk (i :: free k) p
  rw [count_cons] at h
  unfold push covers
  simp only [beq_iff_eq] at h
  split_ifs at h ⊢ <;> omega

theorem freeCount_remove (hk : k ≤ N) (hi : i ∈ free k) (p : ℕ) :
    freeCount N (remove free k i) p + covers k i p = freeCount N free p := by
  have h := freeCount_update free hk ((free k).erase i) p
  have hpos := count_pos_iff.mpr hi
  rw [count_erase] at h
  unfold remove covers
  simp only [beq_iff_eq] at h
  by_cases heq : p / 2 ^ k = i
  · rw [if_pos heq.symm] at h
    rw [if_pos heq]
    rw [← heq] at hpos
    omega
  · rw [if_neg fun h => heq h.symm] at h
    rw [if_neg heq]
    omega

/-- A page that is in a free block. -/
theorem exists_mem_of_freeCount_pos (h : 0 < freeCount N free p) : ∃ k ≤ N, p / 2 ^ k ∈ free k := by
  obtain ⟨k, hk, hne⟩ := Finset.exists_ne_zero_of_sum_ne_zero h.ne'
  exact ⟨k, Nat.lt_succ_iff.mp (Finset.mem_range.mp hk), count_pos_iff.mp (Nat.pos_of_ne_zero hne)⟩

theorem freeCount_pos_of_mem (hk : k ≤ N) (h : p / 2 ^ k ∈ free k) : 0 < freeCount N free p := by
  have hle : (free k).count (p / 2 ^ k) ≤ freeCount N free p :=
    Finset.single_le_sum (f := fun k => (free k).count (p / 2 ^ k)) (fun _ _ => Nat.zero_le _)
      (Finset.mem_range.mpr (Nat.lt_succ_of_le hk))
  exact (count_pos_iff.mpr h).trans_le hle

/-- A page that is in two free blocks. -/
theorem two_le_freeCount {j : ℕ} (hk : k ≤ N) (hj : j ≤ N) (hkj : k ≠ j) (hik : p / 2 ^ k ∈ free k)
    (hij : p / 2 ^ j ∈ free j) : 2 ≤ freeCount N free p := by
  have hrest := freeCount_remove hk hik p
  have hpos : 0 < freeCount N (remove free k (p / 2 ^ k)) p :=
    freeCount_pos_of_mem hj (by rwa [remove_of_ne fun h => hkj h.symm])
  simp only [covers, if_true] at hrest
  omega

/-! ### The invariant -/

/-- The pool of `2 ^ N` pages is divided up. -/
structure Ok (N : ℕ) (free : FreeLists) (used : List (ℕ × ℕ)) : Prop where
  /-- Every page is in one block. -/
  cover : ∀ p, freeCount N free p + usedCount used p = if p < 2 ^ N then 1 else 0
  /-- No free blocks are buddies. -/
  apart : ∀ k < N, ∀ i ∈ free k, i ^^^ 1 ∉ free k

/-- One block, which is free. -/
def whole (N : ℕ) : FreeLists := fun k => if k = N then [0] else []

theorem freeCount_whole (N p : ℕ) : freeCount N (whole N) p = if p < 2 ^ N then 1 else 0 := by
  unfold freeCount
  rw [Finset.sum_eq_single N]
  · have hiff : 0 = p / 2 ^ N ↔ p < 2 ^ N := by
      rw [eq_comm, Nat.div_eq_zero_iff_lt (by positivity)]
    rw [whole, if_pos rfl, count_singleton]
    simp only [beq_iff_eq, hiff]
  · intro k _ hk
    simp [whole, hk]
  · simp

theorem ok_whole (N : ℕ) : Ok N (whole N) [] where
  cover p := by
    rw [freeCount_whole]
    rfl
  apart k hk i hi := by simp [whole, hk.ne] at hi

/-! ### The blocks -/

theorem usedCount_cons (b : ℕ × ℕ) (bs : List (ℕ × ℕ)) (p : ℕ) :
    usedCount (b :: bs) p = covers b.1 b.2 p + usedCount bs p := rfl

theorem usedCount_append (bs cs : List (ℕ × ℕ)) (p : ℕ) :
    usedCount (bs ++ cs) p = usedCount bs p + usedCount cs p := by
  simp [usedCount]

theorem usedCount_pos_iff {bs : List (ℕ × ℕ)} : 0 < usedCount bs p ↔ ∃ b ∈ bs, p / 2 ^ b.1 = b.2 := by
  induction bs with
  | nil => simp [usedCount]
  | cons b bs ih =>
    have hcovers : 0 < covers b.1 b.2 p ↔ p / 2 ^ b.1 = b.2 := by
      unfold covers
      split_ifs with h <;> simp [h]
    rw [usedCount_cons, Nat.add_pos_iff_pos_or_pos, ih, hcovers]
    simp only [mem_cons, exists_eq_or_imp]

/-- The blocks of a pool up to order `n - 1`, by their orders and numbers. -/
def freeBlocks (free : FreeLists) (n : ℕ) : List (ℕ × ℕ) :=
  (List.range n).flatMap fun k => (free k).map (Prod.mk k)

theorem mem_freeBlocks {n : ℕ} {b : ℕ × ℕ} : b ∈ freeBlocks free n ↔ b.1 < n ∧ b.2 ∈ free b.1 := by
  obtain ⟨k, i⟩ := b
  simp only [freeBlocks, mem_flatMap, mem_range, mem_map, Prod.mk.injEq]
  exact ⟨fun ⟨_, hk, _, hi, heq, hieq⟩ => heq ▸ hieq ▸ ⟨hk, hi⟩,
    fun ⟨hk, hi⟩ => ⟨k, hk, i, hi, rfl, rfl⟩⟩

theorem usedCount_map (k : ℕ) (l : List ℕ) (p : ℕ) :
    usedCount (l.map (Prod.mk k)) p = l.count (p / 2 ^ k) := by
  induction l with
  | nil => rfl
  | cons i l ih =>
    rw [map_cons, usedCount_cons, ih, count_cons, Nat.add_comm]
    simp only [covers, beq_iff_eq, eq_comm (a := i)]

theorem usedCount_freeBlocks (free : FreeLists) (n p : ℕ) :
    usedCount (freeBlocks free n) p = ∑ k ∈ Finset.range n, (free k).count (p / 2 ^ k) := by
  induction n with
  | zero => rfl
  | succ n ih =>
    rw [freeBlocks, range_succ, flatMap_append, usedCount_append, Finset.sum_range_succ, ← ih,
      freeBlocks]
    simp [usedCount_map]

/-- Blocks have no page in common if no page is in two of them. -/
theorem pairwise_of_usedCount_le {bs : List (ℕ × ℕ)} (h : ∀ p, usedCount bs p ≤ 1) :
    bs.Pairwise fun b c => ∀ p, ¬ (p / 2 ^ b.1 = b.2 ∧ p / 2 ^ c.1 = c.2) := by
  induction bs with
  | nil => exact .nil
  | cons b bs ih =>
    refine pairwise_cons.mpr ⟨fun c hc p hp => ?_, ih fun p => ?_⟩
    · have hle := h p
      have hpos := usedCount_pos_iff.mpr ⟨c, hc, hp.2⟩
      rw [usedCount_cons, covers, if_pos hp.1] at hle
      omega
    · have hle := h p
      rw [usedCount_cons] at hle
      omega

/-- All blocks of a pool. -/
def blocks (N : ℕ) (free : FreeLists) (used : List (ℕ × ℕ)) : List (ℕ × ℕ) :=
  freeBlocks free (N + 1) ++ used

section

variable (h : Ok N free used)
include h

theorem Ok.usedCount_blocks (p : ℕ) : usedCount (blocks N free used) p = if p < 2 ^ N then 1 else 0 := by
  rw [blocks, usedCount_append, usedCount_freeBlocks]
  exact h.cover p

/-- **A partition**: the blocks have no page in common, -/
theorem Ok.pairwise :
    (blocks N free used).Pairwise fun b c => ∀ p, ¬ (p / 2 ^ b.1 = b.2 ∧ p / 2 ^ c.1 = c.2) :=
  pairwise_of_usedCount_le fun p => by
    rw [h.usedCount_blocks]
    split_ifs <;> omega

/-- and their pages are those of the pool. -/
theorem Ok.exists_block_iff : (∃ b ∈ blocks N free used, p / 2 ^ b.1 = b.2) ↔ p < 2 ^ N := by
  rw [← usedCount_pos_iff, h.usedCount_blocks]
  split_ifs <;> omega

/-- A block ends within the pool. -/
theorem Ok.block_le {b : ℕ × ℕ} (hb : b ∈ blocks N free used) : (b.2 + 1) * 2 ^ b.1 ≤ 2 ^ N := by
  have hpos : 0 < 2 ^ b.1 := by positivity
  have hmul : 0 < (b.2 + 1) * 2 ^ b.1 := Nat.mul_pos (Nat.succ_pos _) hpos
  have hlast : ((b.2 + 1) * 2 ^ b.1 - 1) / 2 ^ b.1 = b.2 :=
    Nat.div_eq_of_lt_le (by rw [Nat.succ_mul]; omega) (by omega)
  have hlt := h.exists_block_iff.mp ⟨b, hb, hlast⟩
  omega

theorem Ok.free_le (hk : k ≤ N) (hi : i ∈ free k) : (i + 1) * 2 ^ k ≤ 2 ^ N :=
  h.block_le (b := (k, i)) (mem_append_left _ (mem_freeBlocks.mpr ⟨Nat.lt_succ_of_le hk, hi⟩))

theorem Ok.used_le (hi : (k, i) ∈ used) : (i + 1) * 2 ^ k ≤ 2 ^ N :=
  h.block_le (b := (k, i)) (mem_append_right _ hi)

theorem Ok.used_order (hi : (k, i) ∈ used) : k ≤ N :=
  (Nat.pow_le_pow_iff_right (by norm_num)).mp ((Nat.le_mul_of_pos_left _ (Nat.succ_pos i)).trans
    (h.used_le hi))

/-- A page is free if it is in the pool and in no block that is in use. -/
theorem Ok.freeCount_pos_iff :
    0 < freeCount N free p ↔ p < 2 ^ N ∧ ∀ b ∈ used, p / 2 ^ b.1 ≠ b.2 := by
  have hnone : usedCount used p = 0 ↔ ∀ b ∈ used, p / 2 ^ b.1 ≠ b.2 := by
    rw [← not_iff_not, ← ne_eq, ← Nat.pos_iff_ne_zero, usedCount_pos_iff]
    push Not
    rfl
  have hone := h.cover p
  rw [← hnone]
  split_ifs at hone <;> omega

/-! ### Room -/

/-- **Room enough means a block as large.** If all pages of a block are free, there is a free block
of its order or more. -/
theorem Ok.exists_free (hk : k ≤ N) (hfree : ∀ p, p / 2 ^ k = i → 0 < freeCount N free p) :
    ∃ j, k ≤ j ∧ j ≤ N ∧ free j ≠ [] := by
  by_contra hno
  push Not at hno
  -- Otherwise the block is made up of smaller ones, one of the smallest of which has the order `j`.
  have hsmall : ∀ p, p / 2 ^ k = i → ∃ j < k, p / 2 ^ j ∈ free j := fun p hp => by
    obtain ⟨j, hj, hmem⟩ := exists_mem_of_freeCount_pos (hfree p hp)
    refine ⟨j, not_le.mp fun hkj => ?_, hmem⟩
    rw [hno j hkj hj] at hmem
    exact not_mem_nil hmem
  have hsome : ∃ j, j < k ∧ ∃ p, p / 2 ^ k = i ∧ p / 2 ^ j ∈ free j := by
    obtain ⟨j, hj, hmem⟩ := hsmall (i * 2 ^ k) (Nat.mul_div_cancel _ (by positivity))
    exact ⟨j, hj, _, Nat.mul_div_cancel _ (by positivity), hmem⟩
  classical
  obtain ⟨hjk, p, hp, hmem⟩ := Nat.find_spec hsome
  generalize hj : Nat.find hsome = j at hjk hmem
  have hmin : ∀ j' < k, (∃ p, p / 2 ^ k = i ∧ p / 2 ^ j' ∈ free j') → j ≤ j' := fun j' hj' hex =>
    hj ▸ Nat.find_min' hsome ⟨hj', hex⟩
  -- The buddy of this block lies in the large block too, so that its first page is in a free block.
  generalize hm : p / 2 ^ j = m at hmem
  have hbuddy : ∀ j', j < j' → (m ^^^ 1) * 2 ^ j / 2 ^ j' = p / 2 ^ j' := fun j' hlt => by
    rw [div_pow_eq_div_pow (k := j + 1) hlt, div_pow_eq_div_pow (k := j + 1) hlt p, div_pow_succ,
      div_pow_succ, Nat.mul_div_cancel _ (by positivity), xor_one_div_two, hm]
  obtain ⟨j', hj'k, hmem'⟩ := hsmall ((m ^^^ 1) * 2 ^ j) ((hbuddy k hjk).trans hp)
  rcases (hmin j' hj'k ⟨_, (hbuddy k hjk).trans hp, hmem'⟩).eq_or_lt with rfl | hlt
  · rw [Nat.mul_div_cancel _ (by positivity)] at hmem'
    exact h.apart j (hjk.trans_le hk) m hmem hmem'
  · -- A larger one would have the smallest block in it.
    rw [hbuddy j' hlt] at hmem'
    have htwo : 2 ≤ freeCount N free p :=
      two_le_freeCount (hjk.le.trans hk) (hj'k.le.trans hk) hlt.ne (hm.symm ▸ hmem) hmem'
    have hone := h.cover p
    split_ifs at hone <;> omega

end

/-- **Nothing in use**: the pool is one block. -/
theorem Ok.free_eq_of_nil (h : Ok N free []) (hk : k ≤ N) : free k = whole N k := by
  have hone : ∀ p, freeCount N free p = if p < 2 ^ N then 1 else 0 := h.cover
  obtain ⟨j, hNj, hjN, hne⟩ := h.exists_free (i := 0) le_rfl fun p hp => by
    rw [hone, if_pos ((Nat.div_eq_zero_iff_lt (by positivity)).mp hp)]
    exact Nat.one_pos
  obtain rfl : N = j := le_antisymm hNj hjN
  obtain ⟨m, hm⟩ := exists_mem_of_ne_nil _ hne
  have hm0 : m = 0 := by
    have hpos : 0 < freeCount N free (m * 2 ^ N) :=
      freeCount_pos_of_mem le_rfl (by rwa [Nat.mul_div_cancel _ (by positivity)])
    rw [hone] at hpos
    split_ifs at hpos with hlt
    · exact Nat.lt_one_iff.mp (Nat.lt_of_mul_lt_mul_right (hlt.trans_eq (Nat.one_mul _).symm))
    · omega
  subst hm0
  -- With the whole pool taken away nothing is left.
  have hrest : ∀ p, freeCount N (remove free N 0) p = 0 := fun p => by
    have hsum := freeCount_remove le_rfl hm p
    have hlt : p / 2 ^ N = 0 ↔ p < 2 ^ N := Nat.div_eq_zero_iff_lt (by positivity)
    rw [hone] at hsum
    simp only [covers, hlt] at hsum
    split_ifs at hsum <;> omega
  have hnil : ∀ j ≤ N, remove free N 0 j = [] := fun j hj => eq_nil_iff_forall_not_mem.mpr fun q hq => by
    have hpos : 0 < freeCount N (remove free N 0) (q * 2 ^ j) :=
      freeCount_pos_of_mem hj (by rwa [Nat.mul_div_cancel _ (by positivity)])
    rw [hrest] at hpos
    exact absurd hpos (Nat.lt_irrefl 0)
  unfold whole
  split_ifs with hkN
  · subst hkN
    have herase := hnil k le_rfl
    rw [remove_self] at herase
    exact perm_singleton.mp (herase ▸ perm_cons_erase hm)
  · have hk' := hnil k hk
    rwa [remove_of_ne hkN] at hk'

/-! ### Taking a block -/

/-- Halve block `i` of order `k + d` until it has the order `k`. The upper halves are free. -/
def splitDown (free : FreeLists) (k i : ℕ) : ℕ → FreeLists × ℕ
  | 0 => (free, i)
  | d + 1 => splitDown (push free (k + d) (2 * i + 1)) k (2 * i) d

/-- The order of the smallest free block that is large enough. -/
def findOrder (N : ℕ) (free : FreeLists) (k : ℕ) : Option ℕ :=
  (List.range' k (N + 1 - k)).find? fun j => decide (free j ≠ [])

/-- Take a block of order `k`. -/
def take (N : ℕ) (free : FreeLists) (k : ℕ) : Option (FreeLists × ℕ) :=
  match findOrder N free k with
  | none => none
  | some j =>
    match free j with
    | [] => none
    | i :: rest => some (splitDown (update free j rest) k i (j - k))

theorem findOrder_eq_none_iff : findOrder N free k = none ↔ ∀ j, k ≤ j → j ≤ N → free j = [] := by
  simp only [findOrder, find?_eq_none, mem_range'_1, decide_eq_true_eq, not_not]
  exact ⟨fun h j hkj hjN => h j ⟨hkj, by omega⟩, fun h j hj => h j hj.1 (by omega)⟩

/-- The order that is found is the least. -/
theorem findOrder_eq_some {j : ℕ} (h : findOrder N free k = some j) :
    k ≤ j ∧ j ≤ N ∧ free j ≠ [] ∧ ∀ j', k ≤ j' → j' < j → free j' = [] := by
  obtain ⟨hmem, hne, hleast⟩ : j ∈ List.range' k (N + 1 - k) ∧ free j ≠ [] ∧ ∀ j', k ≤ j' → j' < j →
    free j' = [] := by
    obtain ⟨hp, as, bs, hsplit, has⟩ := find?_eq_some_iff_append.mp h
    refine ⟨hsplit ▸ by simp, by simpa using hp, fun j' hkj' hlt => ?_⟩
    have hj' : j' ∈ as ++ j :: bs := hsplit ▸ mem_range'_1.mpr ⟨hkj', by
      have : j ∈ List.range' k (N + 1 - k) := hsplit ▸ by simp
      have := (mem_range'_1.mp this).2
      omega⟩
    have hsorted : (as ++ j :: bs).Pairwise (· < ·) := hsplit ▸ pairwise_lt_range'
    rcases mem_append.mp hj' with hin | hin
    · simpa using has j' hin
    · rcases mem_cons.mp hin with rfl | hin
      · exact absurd hlt (lt_irrefl _)
      · have := (pairwise_cons.mp (pairwise_append.mp hsorted).2.1).1 j' hin
        omega
  have := (mem_range'_1.mp hmem)
  exact ⟨this.1, by omega, hne, hleast⟩

/-- Halving loses nothing. -/
theorem splitDown_cover {d : ℕ} (hkd : k + d ≤ N) (p : ℕ) :
    freeCount N (splitDown free k i d).1 p + covers k (splitDown free k i d).2 p =
      freeCount N free p + covers (k + d) i p := by
  induction d generalizing free i with
  | zero => rfl
  | succ d ih =>
    rw [splitDown, ih (by omega), freeCount_push (by omega), Nat.add_assoc, Nat.add_comm (covers _ _ _),
      covers_halves, Nat.add_assoc]

theorem splitDown_free (free : FreeLists) (k i d j : ℕ) :
    (k ≤ j ∧ j < k + d ∧ ∃ m, (splitDown free k i d).1 j = m :: free j) ∨
      ¬ (k ≤ j ∧ j < k + d) ∧ (splitDown free k i d).1 j = free j := by
  induction d generalizing free i with
  | zero => exact .inr ⟨by omega, rfl⟩
  | succ d ih =>
    rw [splitDown]
    rcases ih (push free (k + d) (2 * i + 1)) (2 * i) with ⟨hkj, hlt, m, hm⟩ | ⟨hout, hsame⟩
    · rw [push_of_ne (by omega)] at hm
      exact .inl ⟨hkj, by omega, m, hm⟩
    · by_cases hj : j = k + d
      · subst hj
        exact .inl ⟨by omega, by omega, _, hsame.trans (push_self ..)⟩
      · rw [push_of_ne hj] at hsame
        exact .inr ⟨by omega, hsame⟩

theorem splitDown_index (d : ℕ) : (splitDown free k i d).2 = i * 2 ^ d := by
  induction d generalizing free i with
  | zero => exact (Nat.mul_one i).symm
  | succ d ih => rw [splitDown, ih, Nat.pow_succ, Nat.mul_comm 2 i, Nat.mul_assoc, Nat.mul_comm 2]

/-- Taking a block keeps the pool divided up. -/
theorem Ok.take (h : Ok N free used) {free' : FreeLists} {m : ℕ}
    (htake : take N free k = some (free', m)) :
    Ok N free' ((k, m) :: used) ∧ k ≤ N ∧ ∀ p, p / 2 ^ k = m → 0 < freeCount N free p := by
  unfold Buddy.take at htake
  split at htake
  · cases htake
  rename_i j hfind
  obtain ⟨hkj, hjN, -, hleast⟩ := findOrder_eq_some hfind
  split at htake
  · cases htake
  rename_i i rest hlist
  obtain ⟨d, rfl⟩ := Nat.exists_eq_add_of_le hkj
  rw [Nat.add_sub_cancel_left, Option.some_inj] at htake
  -- The block that is popped is the first of its list.
  have hpop : update free (k + d) rest = remove free (k + d) i := by rw [remove, hlist, erase_cons_head]
  rw [hpop] at htake
  obtain ⟨rfl, rfl⟩ : (splitDown (remove free (k + d) i) k i d).1 = free' ∧
      (splitDown (remove free (k + d) i) k i d).2 = m := by rw [htake]; exact ⟨rfl, rfl⟩
  have hmem : i ∈ free (k + d) := by rw [hlist]; exact mem_cons_self
  have hcover : ∀ p, freeCount N (splitDown (remove free (k + d) i) k i d).1 p +
      covers k (splitDown (remove free (k + d) i) k i d).2 p = freeCount N free p := fun p =>
    (splitDown_cover hjN p).trans (freeCount_remove hjN hmem p)
  refine ⟨⟨fun p => ?_, fun j hj q hq => ?_⟩, by omega, fun p hp => ?_⟩
  · rw [← h.cover p, ← hcover p, usedCount, map_cons, sum_cons, Nat.add_assoc]
    rfl
  · rcases splitDown_free (remove free (k + d) i) k i d j with ⟨hkj', hlt, x, hx⟩ | ⟨-, hsame⟩
    · -- The lists that get an upper half were empty.
      rw [remove_of_ne (by omega), hleast j hkj' hlt] at hx
      rw [hx, mem_singleton] at hq ⊢
      exact hq ▸ xor_one_ne q
    · rw [hsame] at hq ⊢
      exact fun hbuddy => h.apart j hj q (mem_of_mem_remove hq) (mem_of_mem_remove hbuddy)
  · have := hcover p
    rw [covers, if_pos hp] at this
    omega

/-- **Taking fails only if there is no room.** -/
theorem Ok.take_eq_none_iff (h : Ok N free used) (hk : k ≤ N) :
    Buddy.take N free k = none ↔ ¬ ∃ i, ∀ p, p / 2 ^ k = i → 0 < freeCount N free p := by
  constructor
  · rintro hnone ⟨i, hfree⟩
    obtain ⟨j, hkj, hjN, hne⟩ := h.exists_free hk hfree
    unfold Buddy.take at hnone
    split at hnone
    · rename_i hfind
      exact hne (findOrder_eq_none_iff.mp hfind j hkj hjN)
    · rename_i j' hfind
      split at hnone
      · rename_i hnil
        exact (findOrder_eq_some hfind).2.2.1 hnil
      · cases hnone
  · intro hno
    by_contra hsome
    obtain ⟨⟨free', m⟩, htake⟩ := Option.ne_none_iff_exists'.mp hsome
    exact hno ⟨m, (h.take htake).2.2⟩

/-! ### Giving a block back -/

/-- Join block `i` of order `k` with its buddy as long as that is free, `d` times at most, and put
it on its list. -/
def coalesce (free : FreeLists) (k i : ℕ) : ℕ → FreeLists
  | 0 => push free k i
  | d + 1 => if i ^^^ 1 ∈ free k then coalesce (remove free k (i ^^^ 1)) (k + 1) (i / 2) d
      else push free k i

/-- Give a block back. -/
def give (N : ℕ) (free : FreeLists) (k i : ℕ) : FreeLists := coalesce free k i (N - k)

theorem coalesce_cover {d : ℕ} (hkd : k + d = N) (p : ℕ) :
    freeCount N (coalesce free k i d) p = freeCount N free p + covers k i p := by
  induction d generalizing free k i with
  | zero => exact freeCount_push (by omega) i p
  | succ d ih =>
    unfold coalesce
    split_ifs with hbuddy
    · rw [ih (by omega), ← covers_buddies, ← freeCount_remove (by omega) hbuddy]
      omega
    · exact freeCount_push (by omega) i p

/-- A block whose buddy is not free can be put on its list. -/
theorem apart_push (hapart : ∀ k < N, ∀ i ∈ free k, i ^^^ 1 ∉ free k)
    (hbuddy : k < N → i ^^^ 1 ∉ free k) :
    ∀ j < N, ∀ m ∈ push free k i j, m ^^^ 1 ∉ push free k i j := by
  intro j hj m hm
  by_cases hjk : j = k
  · subst hjk
    rw [push_self, mem_cons] at hm ⊢
    rintro (heq | hin)
    · rcases hm with rfl | hm
      · exact xor_one_ne m heq
      · exact hbuddy hj (by rwa [← heq, xor_one_xor_one])
    · rcases hm with rfl | hm
      · exact hbuddy hj hin
      · exact hapart j hj m hm hin
  · rw [push_of_ne hjk] at hm ⊢
    exact hapart j hj m hm

theorem coalesce_apart {d : ℕ} (hkd : k + d = N) (hapart : ∀ k < N, ∀ i ∈ free k, i ^^^ 1 ∉ free k) :
    ∀ j < N, ∀ m ∈ coalesce free k i d j, m ^^^ 1 ∉ coalesce free k i d j := by
  induction d generalizing free k i with
  | zero => exact apart_push hapart fun hk => by omega
  | succ d ih =>
    unfold coalesce
    split_ifs with hbuddy
    · exact ih (by omega) fun j hj m hm hin => hapart j hj m (mem_of_mem_remove hm)
        (mem_of_mem_remove hin)
    · exact apart_push hapart fun _ => hbuddy

/-- Giving back a block that is in use keeps the pool divided up. -/
theorem Ok.give (h : Ok N free used) (hk : k ≤ N) (hused : (k, i) ∈ used) :
    Ok N (give N free k i) (used.erase (k, i)) where
  cover p := by
    have hsum : usedCount used p = covers k i p + usedCount (used.erase (k, i)) p := by
      have hperm := ((perm_cons_erase hused).map fun b => covers b.1 b.2 p).sum_eq
      rw [map_cons, sum_cons] at hperm
      exact hperm
    rw [← h.cover p, Buddy.give, coalesce_cover (by omega), hsum, Nat.add_assoc]
  apart := coalesce_apart (by omega) h.apart

end Nonux.Lib.Buddy
