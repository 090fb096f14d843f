import Nonux.Core.Pmm
import Nonux.Lib.Buddy

/-!
# The buddy allocator (`mm_buddy.c`)

The component gives out blocks of `2 ^ k` pages from a pool of `2 ^ N`. It keeps a list of addresses
for every order. An allocation takes the first block of the first list that is not empty and halves
it, and a free looks for the buddy of the block, whose address is found by flipping a bit of the
distance from the base, and joins the two.

## What is proved

The model is over addresses of 64 bits. It does what the buddy system of the library does with
numbers of blocks (`Shows.allocPages`, `Shows.freePages`): the number of a block stands for its
address (`blockAddr`), and flipping the last bit of the one is flipping bit `k + 12` of the other
(`Shows.buddyAddr`). `blocks_partition` and `alloc_null_iff` then say what holds in every state that
clients can reach.
-/

namespace Nonux.Components

open Nonux.Core Nonux.Lib List

/-! ### The component -/

/-- `struct mm_buddy_state`, without its counters. The links of the free lists are in the free
blocks themselves. -/
structure MmBuddyState where
  poolBase : ℕ
  freeLists : ℕ → List ℕ

namespace MmBuddyState

/-- `free_list_push` -/
def freeListPush (s : MmBuddyState) (order node : ℕ) : MmBuddyState :=
  { s with freeLists := Function.update s.freeLists order (node :: s.freeLists order) }

/-- `free_list_pop` -/
def freeListPop (s : MmBuddyState) (order : ℕ) : MmBuddyState × Option ℕ :=
  match s.freeLists order with
  | [] => (s, none)
  | n :: next => ({ s with freeLists := Function.update s.freeLists order next }, some n)

/-- The walk of `free_list_remove` along a list. -/
def unlink (target : ℕ) : List ℕ → Option (List ℕ)
  | [] => none
  | n :: next => if n = target then some next else (unlink target next).map (n :: ·)

/-- `free_list_remove`; nothing if the block is not on the list. -/
def freeListRemove (s : MmBuddyState) (order target : ℕ) : Option MmBuddyState :=
  (unlink target (s.freeLists order)).map
    fun l => { s with freeLists := Function.update s.freeLists order l }

/-- How many bytes a block has. -/
def blockSize (order : ℕ) : ℕ := (pmmPageSize <<< order) % 2 ^ 64

/-- The first loop of `mm_buddy_alloc_pages`: past the lists that are empty. -/
def findLoop (s : MmBuddyState) (found : ℕ) : ℕ → ℕ
  | 0 => found
  | n + 1 => if s.freeLists found = [] then findLoop s (found + 1) n else found

/-- The second loop: down from order `order + n`. -/
def splitLoop (block order : ℕ) : ℕ → MmBuddyState → MmBuddyState
  | 0, s => s
  | n + 1, s => splitLoop block order n
      (s.freeListPush (order + n) ((block + blockSize (order + n)) % 2 ^ 64))

/-- `mm_buddy_alloc_pages`, for a pool of order `poolOrder`. -/
def mmBuddyAllocPages (poolOrder : ℕ) (s : MmBuddyState) (order : ℕ) : MmBuddyState × Option ℕ :=
  if poolOrder < order then (s, none)
  else
    let found := s.findLoop order (poolOrder + 1 - order)
    if poolOrder < found then (s, none)
    else
      match s.freeListPop found with
      | (s, none) => (s, none)
      | (s, some block) => (splitLoop block order (found - order) s, some block)

/-- The address of the buddy. -/
def buddyAddr (s : MmBuddyState) (addr order : ℕ) : ℕ :=
  (s.poolBase + (wsub addr s.poolBase ^^^ blockSize order)) % 2 ^ 64

/-- The loop of `mm_buddy_free_pages`, up to order `order + n`, and the push behind it. -/
def coalesceLoop (addr order : ℕ) : ℕ → MmBuddyState → MmBuddyState
  | 0, s => s.freeListPush order addr
  | n + 1, s =>
    let buddy := s.buddyAddr addr order
    match s.freeListRemove order buddy with
    | none => s.freeListPush order addr
    | some s => coalesceLoop (if buddy < addr then buddy else addr) (order + 1) n s

/-- `mm_buddy_free_pages` -/
def mmBuddyFreePages (poolOrder : ℕ) (s : MmBuddyState) (ptr order : ℕ) : MmBuddyState :=
  if ptr = 0 then s
  else if poolOrder < order then s
  else coalesceLoop ptr order (poolOrder - order) s

/-- `mm_buddy_init`, with the pool that it got. -/
def mmBuddyInit (poolOrder poolBase : ℕ) : MmBuddyState :=
  ({ poolBase, freeLists := fun _ => [] } : MmBuddyState).freeListPush poolOrder poolBase

end MmBuddyState

/-! ### Addresses and numbers -/

/-- A pool that lies in the address space. -/
structure BuddyPool where
  order : ℕ
  base : ℕ
  base_pos : 0 < base
  fits : base + pmmPageSize * 2 ^ order ≤ 2 ^ 64

namespace BuddyPool

variable {P : BuddyPool} {k i j a : ℕ}

/-- Where block `i` of order `k` begins. -/
def blockAddr (P : BuddyPool) (k i : ℕ) : ℕ := P.base + i * (pmmPageSize * 2 ^ k)

theorem blockAddr_succ (P : BuddyPool) (k i : ℕ) : P.blockAddr (k + 1) i = P.blockAddr k (2 * i) := by
  unfold blockAddr
  rw [Nat.pow_succ]
  ring

theorem size_pos (k : ℕ) : 0 < pmmPageSize * 2 ^ k := Nat.mul_pos (by decide) (by positivity)

theorem blockAddr_lt_iff : P.blockAddr k i < P.blockAddr k j ↔ i < j := by
  unfold blockAddr
  rw [Nat.add_lt_add_iff_left]
  exact Nat.mul_lt_mul_right (size_pos k)

theorem blockAddr_injective (P : BuddyPool) (k : ℕ) :
    Function.Injective (P.blockAddr k) := fun _ _ hij =>
  Nat.eq_of_mul_eq_mul_right (size_pos k) (Nat.add_left_cancel hij)

/-- A block of the pool ends within the address space. -/
theorem blockAddr_le (hi : (i + 1) * 2 ^ k ≤ 2 ^ P.order) :
    P.blockAddr k i + pmmPageSize * 2 ^ k ≤ 2 ^ 64 := by
  have hmul : pmmPageSize * ((i + 1) * 2 ^ k) ≤ pmmPageSize * 2 ^ P.order := Nat.mul_le_mul_left _ hi
  calc P.blockAddr k i + pmmPageSize * 2 ^ k = P.base + pmmPageSize * ((i + 1) * 2 ^ k) := by unfold blockAddr; ring
    _ ≤ 2 ^ 64 := (Nat.add_le_add_left hmul _).trans P.fits

theorem blockAddr_lt (hi : (i + 1) * 2 ^ k ≤ 2 ^ P.order) : P.blockAddr k i < 2 ^ 64 := by
  have := blockAddr_le hi
  have := size_pos k
  omega

theorem blockSize_eq (hk : k ≤ P.order) : MmBuddyState.blockSize k = pmmPageSize * 2 ^ k := by
  have hmul : pmmPageSize * 2 ^ k ≤ pmmPageSize * 2 ^ P.order :=
    Nat.mul_le_mul_left _ (Nat.pow_le_pow_right (by norm_num) hk)
  have := P.fits
  have := P.base_pos
  rw [MmBuddyState.blockSize, Nat.shiftLeft_eq, Nat.mod_eq_of_lt (by omega)]

/-- Buddies lie in one block of the pool. -/
theorem buddy_le (hk : k < P.order) (hi : (i + 1) * 2 ^ k ≤ 2 ^ P.order) :
    ((i ^^^ 1) + 1) * 2 ^ k ≤ 2 ^ P.order ∧ (i / 2 + 1) * 2 ^ (k + 1) ≤ 2 ^ P.order := by
  obtain ⟨d, hd⟩ := Nat.exists_eq_add_of_lt hk
  have hsplit : 2 ^ P.order = 2 * 2 ^ d * 2 ^ k := by rw [hd]; ring
  have hdiv := Buddy.xor_one_div_two i
  rw [hsplit] at hi ⊢
  have hlt : i + 1 ≤ 2 * 2 ^ d := Nat.le_of_mul_le_mul_right hi (by positivity)
  refine ⟨Nat.mul_le_mul_right _ (by omega), ?_⟩
  calc (i / 2 + 1) * 2 ^ (k + 1) = (2 * (i / 2 + 1)) * 2 ^ k := by rw [Nat.pow_succ]; ring
    _ ≤ 2 * 2 ^ d * 2 ^ k := Nat.mul_le_mul_right _ (by omega)

end BuddyPool

namespace MmBuddyState

open BuddyPool

/-- The component has the free blocks that the library's pool has. -/
structure Shows (P : BuddyPool) (s : MmBuddyState) (free : Buddy.FreeLists) : Prop where
  base_eq : s.poolBase = P.base
  lists : ∀ k ≤ P.order, s.freeLists k = (free k).map (P.blockAddr k)

variable {P : BuddyPool} {s : MmBuddyState} {free : Buddy.FreeLists} {used : List (ℕ × ℕ)} {k i d : ℕ}

theorem Shows.update (h : s.Shows P free) (k : ℕ) {l : List ℕ} {l' : List ℕ}
    (hl : l' = l.map (P.blockAddr k)) :
    ({ s with freeLists := Function.update s.freeLists k l' } : MmBuddyState).Shows P
    (Function.update free k l) where
  base_eq := h.base_eq
  lists j hj := by
    by_cases hjk : j = k
    · subst hjk
      simp only [Function.update_self, hl]
    · simp only [Function.update_of_ne hjk, h.lists j hj]

theorem Shows.push (h : s.Shows P free) (hk : k ≤ P.order) (i : ℕ) :
    (s.freeListPush k (P.blockAddr k i)).Shows P (Buddy.push free k i) :=
  h.update k (by rw [h.lists k hk, map_cons])

theorem shows_init (P : BuddyPool) : (mmBuddyInit P.order P.base).Shows P (Buddy.whole P.order) where
  base_eq := rfl
  lists k _ := by
    by_cases hk : k = P.order
    · subst hk
      simp [mmBuddyInit, freeListPush, Buddy.whole, blockAddr]
    · simp [mmBuddyInit, freeListPush, Buddy.whole, hk]

/-! ### Allocation -/

theorem findLoop_eq (s : MmBuddyState) (found n : ℕ) :
    s.findLoop found n = ((List.range' found n).find? fun j => decide (s.freeLists j ≠ [])).getD
      (found + n) := by
  induction n generalizing found with
  | zero => rfl
  | succ n ih =>
    rw [findLoop, range'_succ, find?_cons]
    by_cases hnil : s.freeLists found = []
    · simp only [hnil, if_true, ne_eq, not_true_eq_false, decide_false, ih]
      congr 1
      omega
    · simp [hnil]

/-- The loop finds what the library finds. -/
theorem Shows.findLoop (h : s.Shows P free) (hk : k ≤ P.order) :
    s.findLoop k (P.order + 1 - k) = (Buddy.findOrder P.order free k).getD (P.order + 1) := by
  have hsame : ∀ j ∈ List.range' k (P.order + 1 - k), decide (s.freeLists j ≠ []) = decide
      (free j ≠ []) := fun j hj => by
    have := mem_range'_1.mp hj
    rw [h.lists j (by omega)]
    simp
  rw [findLoop_eq, Buddy.findOrder, find?_congr hsame, Nat.add_sub_cancel' (by omega)]

theorem Shows.splitLoop (h : s.Shows P free) (hkd : k + d ≤ P.order)
    (hi : (i + 1) * 2 ^ (k + d) ≤ 2 ^ P.order) :
    (splitLoop (P.blockAddr (k + d) i) k d s).Shows P (Buddy.splitDown free k i d).1 := by
  induction d generalizing s free i with
  | zero => exact h
  | succ d ih =>
    have hhalf : (2 * i + 1 + 1) * 2 ^ (k + d) ≤ 2 ^ P.order := by
      refine le_of_eq_of_le ?_ hi
      rw [← Nat.add_assoc, Nat.pow_succ]
      ring
    have hlower : (2 * i + 1) * 2 ^ (k + d) ≤ 2 ^ P.order :=
      (Nat.mul_le_mul_right _ (Nat.le_succ _)).trans hhalf
    -- The upper half begins where the lower one ends.
    have hupper : P.blockAddr (k + d) (2 * i) + blockSize (k + d) = P.blockAddr (k + d) (2 * i + 1) := by
      rw [blockSize_eq (show k + d ≤ P.order by omega), blockAddr, blockAddr]
      ring
    rw [MmBuddyState.splitLoop, ← Nat.add_assoc k d 1, blockAddr_succ, hupper, Nat.mod_eq_of_lt
      (blockAddr_lt hhalf)]
    exact ih (h.push (by omega) _) (by omega) hlower

/-- **Allocation** is that of the library. -/
theorem Shows.allocPages (h : s.Shows P free) (hok : Buddy.Ok P.order free used) (hk : k ≤ P.order) :
    (Buddy.take P.order free k = none ∧ mmBuddyAllocPages P.order s k = (s, none)) ∨
      ∃ free' m s', Buddy.take P.order free k = some (free', m) ∧
        mmBuddyAllocPages P.order s k = (s', some (P.blockAddr k m)) ∧ s'.Shows P free' := by
  simp only [mmBuddyAllocPages, if_neg (not_lt.mpr hk), h.findLoop hk, Buddy.take]
  cases hfind : Buddy.findOrder P.order free k with
  | none => exact .inl ⟨rfl, if_pos (Nat.lt_succ_self _)⟩
  | some j =>
    obtain ⟨hkj, hj, hne, -⟩ := Buddy.findOrder_eq_some hfind
    obtain ⟨i, rest, hlist⟩ := exists_cons_of_ne_nil hne
    obtain ⟨d, rfl⟩ := Nat.exists_eq_add_of_le hkj
    have hi : (i + 1) * 2 ^ (k + d) ≤ 2 ^ P.order := hok.free_le hj (by rw [hlist]; exact mem_cons_self)
    have hpop : s.freeListPop (k + d) =
        ({ s with freeLists := Function.update s.freeLists (k + d) (rest.map (P.blockAddr (k + d))) },
          some (P.blockAddr (k + d) i)) := by
      rw [freeListPop, h.lists _ hj, hlist, map_cons]
    simp only [Option.getD_some, if_neg (not_lt.mpr hj), hpop, hlist, Nat.add_sub_cancel_left]
    refine .inr ⟨_, _, _, rfl, ?_, (h.update (k + d) rfl).splitLoop hj hi⟩
    -- The block that is returned begins where the one that was found does.
    rw [Buddy.splitDown_index, blockAddr, blockAddr, Nat.pow_add]
    ring_nf

/-! ### Freeing -/

theorem unlink_eq (target : ℕ) (l : List ℕ) :
    unlink target l = if target ∈ l then some (l.erase target) else none := by
  induction l with
  | nil => rfl
  | cons n next ih =>
    rw [unlink, ih, erase_cons]
    by_cases hn : n = target
    · simp [hn]
    · by_cases hmem : target ∈ next
      · simp [hn, hmem]
      · simp [hn, hmem, Ne.symm hn]

theorem Shows.remove (h : s.Shows P free) (hk : k ≤ P.order) (i : ℕ) :
    (i ∉ free k ∧ s.freeListRemove k (P.blockAddr k i) = none) ∨
      ∃ s', i ∈ free k ∧ s.freeListRemove k (P.blockAddr k i) = some s' ∧
      s'.Shows P (Buddy.remove free k i) := by
  have hinj := P.blockAddr_injective k
  rw [freeListRemove, unlink_eq, h.lists k hk]
  by_cases hi : i ∈ free k
  · rw [if_pos ((mem_map_of_injective hinj).mpr hi)]
    exact .inr ⟨_, hi, rfl, h.update k (map_erase hinj _).symm⟩
  · rw [if_neg ((mem_map_of_injective hinj).not.mpr hi)]
    exact .inl ⟨hi, rfl⟩

/-- **The buddy**: flipping the bit of the block's size flips the last bit of its number. -/
theorem Shows.buddyAddr (h : s.Shows P free) (hk : k < P.order) (hi : (i + 1) * 2 ^ k ≤ 2 ^ P.order) :
    s.buddyAddr (P.blockAddr k i) k = P.blockAddr k (i ^^^ 1) := by
  have hdist : wsub (P.blockAddr k i) P.base = i * (pmmPageSize * 2 ^ k) := by
    have hbase : P.base ≤ P.blockAddr k i := Nat.le_add_right ..
    rw [wsub_eq hbase (blockAddr_lt hi), blockAddr, Nat.add_sub_cancel_left]
  have hsize : pmmPageSize * 2 ^ k = 2 ^ (k + 12) := by
    rw [show pmmPageSize = 2 ^ 12 from rfl, Nat.pow_add, Nat.mul_comm]
  have hxor : i * 2 ^ (k + 12) ^^^ 2 ^ (k + 12) = (i ^^^ 1) * 2 ^ (k + 12) := by
    have := Nat.shiftLeft_xor_distrib (a := i) (b := 1) (i := k + 12)
    simpa only [Nat.shiftLeft_eq, Nat.one_mul] using this.symm
  have hlt := blockAddr_lt (buddy_le hk hi).1
  rw [MmBuddyState.buddyAddr, h.base_eq, hdist, blockSize_eq hk.le, hsize, hxor, ← hsize]
  exact Nat.mod_eq_of_lt hlt

/-- The lower of two buddies is where the block begins that they make. -/
theorem lower_eq (P : BuddyPool) (k i : ℕ) :
    (if P.blockAddr k (i ^^^ 1) < P.blockAddr k i then P.blockAddr k (i ^^^ 1) else P.blockAddr k i) =
      P.blockAddr (k + 1) (i / 2) := by
  have hdiv := Buddy.xor_one_div_two i
  have hmod := Buddy.xor_one_mod_two i
  rw [blockAddr_succ]
  split_ifs with hlt
  · rw [blockAddr_lt_iff] at hlt
    congr 1
    omega
  · rw [blockAddr_lt_iff] at hlt
    congr 1
    omega

theorem Shows.coalesceLoop (h : s.Shows P free) (hkd : k + d = P.order)
    (hi : (i + 1) * 2 ^ k ≤ 2 ^ P.order) :
    (coalesceLoop (P.blockAddr k i) k d s).Shows P (Buddy.coalesce free k i d) := by
  induction d generalizing s free k i with
  | zero => exact h.push (by omega) i
  | succ d ih =>
    rw [MmBuddyState.coalesceLoop, Buddy.coalesce, h.buddyAddr (by omega) hi]
    rcases h.remove (k := k) (by omega) (i ^^^ 1) with ⟨hnot, hnone⟩ | ⟨s', hmem, hsome, hs'⟩
    · rw [if_neg hnot]
      simp only [hnone]
      exact h.push (by omega) i
    · rw [if_pos hmem]
      simp only [hsome, lower_eq]
      exact ih hs' (by omega) (buddy_le (by omega) hi).2

/-- **Freeing** is that of the library. -/
theorem Shows.freePages (h : s.Shows P free) (hok : Buddy.Ok P.order free used) (hused : (k, i) ∈ used) :
    (mmBuddyFreePages P.order s (P.blockAddr k i) k).Shows P (Buddy.give P.order free k i) := by
  have hk := hok.used_order hused
  have hpos : P.blockAddr k i ≠ 0 := (Nat.lt_of_lt_of_le P.base_pos (Nat.le_add_right ..)).ne'
  rw [mmBuddyFreePages, if_neg hpos, if_neg (not_lt.mpr hk)]
  exact h.coalesceLoop (by omega) (hok.used_le hused)

end MmBuddyState

/-! ### Clients -/

/-- The allocator and the blocks that its clients have: their addresses and orders. -/
structure BuddyClients where
  mm : MmBuddyState
  live : List (ℕ × ℕ) := []

/-- What clients do. -/
inductive BuddyStep where
  | allocPages (order : ℕ)
  | freePages (ptr order : ℕ)
  deriving DecidableEq, Repr

namespace BuddyClients

open BuddyPool MmBuddyState

/-- The client has got what an allocation returned. -/
def got (x : BuddyClients) (order : ℕ) : MmBuddyState × Option ℕ → BuddyClients
  | (mm, none) => { x with mm }
  | (mm, some block) => { mm, live := (block, order) :: x.live }

def step (poolOrder : ℕ) (x : BuddyClients) : BuddyStep → BuddyClients
  | .allocPages order => x.got order (mmBuddyAllocPages poolOrder x.mm order)
  | .freePages ptr order => { mm := mmBuddyFreePages poolOrder x.mm ptr order, live := x.live.erase (ptr, order) }

/-- Clients free what they have got, with its order. -/
def Matching (x : BuddyClients) : BuddyStep → Prop
  | .allocPages _ => True
  | .freePages ptr order => (ptr, order) ∈ x.live

instance decidableMatching (x : BuddyClients) : DecidablePred x.Matching
  | .allocPages _ => inferInstanceAs (Decidable True)
  | .freePages ptr order => inferInstanceAs (Decidable ((ptr, order) ∈ x.live))

/-- The blocks of the component, on its lists and with the clients. -/
def blocks (poolOrder : ℕ) (x : BuddyClients) : List (ℕ × ℕ) :=
  ((List.range (poolOrder + 1)).flatMap fun k => (x.mm.freeLists k).map fun a => (a, k)) ++ x.live

/-- The addresses of a block. -/
def bytes (b : ℕ × ℕ) : Finset ℕ := Finset.Ico b.1 (b.1 + pmmPageSize * 2 ^ b.2)

/-- Two blocks of order `k` are the halves of one of order `k + 1`. -/
def Buddies (base k a b : ℕ) : Prop := pmmPageSize * 2 ^ (k + 1) ∣ a - base ∧ b = a + pmmPageSize * 2 ^ k

/-- A page of the pool, given by its number, is with no client. -/
def FreePage (P : BuddyPool) (x : BuddyClients) (p : ℕ) : Prop :=
  p < 2 ^ P.order ∧ ∀ b ∈ x.live, P.base + p * pmmPageSize ∉ bytes b

/-! ### The invariant -/

/-- The component and its clients have the blocks of the library's pool. -/
structure Good (P : BuddyPool) (x : BuddyClients) (free : Buddy.FreeLists) (used : List (ℕ × ℕ)) :
    Prop where
  shows_free : x.mm.Shows P free
  live_eq : x.live = used.map fun b => (P.blockAddr b.1 b.2, b.1)
  ok : Buddy.Ok P.order free used

variable {P : BuddyPool} {x : BuddyClients} {free : Buddy.FreeLists} {used : List (ℕ × ℕ)} {k a p : ℕ}

theorem good_init (P : BuddyPool) :
    Good P { mm := mmBuddyInit P.order P.base } (Buddy.whole P.order) [] where
  shows_free := shows_init P
  live_eq := rfl
  ok := Buddy.ok_whole P.order

theorem addr_injective (P : BuddyPool) :
    Function.Injective fun b : ℕ × ℕ => (P.blockAddr b.1 b.2, b.1) := by
  rintro ⟨k, i⟩ ⟨j, m⟩ heq
  obtain ⟨haddr, hk⟩ := Prod.mk.inj heq
  dsimp only at haddr hk
  subst hk
  rw [P.blockAddr_injective k haddr]

theorem Good.step (h : Good P x free used) {a : BuddyStep} (hok : x.Matching a) :
    ∃ free' used', Good P (x.step P.order a) free' used' := by
  cases a with
  | allocPages k =>
    by_cases hk : k ≤ P.order
    · rcases h.shows_free.allocPages h.ok hk with ⟨-, hnull⟩ | ⟨free', m, mm, htake, halloc, hmm⟩
      · refine ⟨free, used, ?_⟩
        rw [BuddyClients.step, hnull]
        exact ⟨h.shows_free, h.live_eq, h.ok⟩
      · refine ⟨free', (k, m) :: used, ?_⟩
        rw [BuddyClients.step, halloc]
        refine ⟨hmm, ?_, (h.ok.take htake).1⟩
        simp only [got, h.live_eq, map_cons]
    · refine ⟨free, used, ?_⟩
      rw [BuddyClients.step, mmBuddyAllocPages, if_pos (not_le.mp hk)]
      exact ⟨h.shows_free, h.live_eq, h.ok⟩
  | freePages ptr k =>
    have hmem : (ptr, k) ∈ used.map fun b => (P.blockAddr b.1 b.2, b.1) := h.live_eq ▸ hok
    obtain ⟨⟨j, i⟩, hused, heq⟩ := mem_map.mp hmem
    obtain ⟨rfl, rfl⟩ := Prod.mk.inj heq
    refine ⟨_, _, h.shows_free.freePages h.ok hused, ?_, h.ok.give (h.ok.used_order hused) hused⟩
    exact (congrArg (List.erase · _) h.live_eq).trans (map_erase (addr_injective P) used).symm

theorem good_run (P : BuddyPool) {steps : List BuddyStep}
    (hok : RunOk (step P.order) Matching { mm := mmBuddyInit P.order P.base } steps) :
    ∃ free used, Good P (runFrom (step P.order) { mm := mmBuddyInit P.order P.base } steps) free used :=
  hok.inv (fun x => ∃ free used, Good P x free used)
    (fun _ _ hstep h => h.choose_spec.choose_spec.step hstep) ⟨_, _, good_init P⟩

/-! ### Bytes and pages -/

/-- An address is in a block if its page is. -/
theorem mem_bytes_iff {b : ℕ × ℕ} :
    a ∈ bytes (P.blockAddr b.1 b.2, b.1) ↔ P.base ≤ a ∧ (a - P.base) / pmmPageSize / 2 ^ b.1 = b.2 := by
  have hpos := size_pos b.1
  have hdiv : (a - P.base) / (pmmPageSize * 2 ^ b.1) = b.2 ↔
      b.2 * (pmmPageSize * 2 ^ b.1) ≤ a - P.base ∧
        a - P.base ≤ b.2 * (pmmPageSize * 2 ^ b.1) + pmmPageSize * 2 ^ b.1 - 1 := Nat.div_eq_iff hpos
  rw [Nat.div_div_eq_div_mul, hdiv, bytes, Finset.mem_Ico, blockAddr]
  dsimp only
  omega

theorem Good.blocks_eq (h : Good P x free used) :
    blocks P.order x = (Buddy.blocks P.order free used).map fun b => (P.blockAddr b.1 b.2, b.1) := by
  rw [blocks, Buddy.blocks, map_append, h.live_eq, Buddy.freeBlocks, map_flatMap]
  congr 1
  refine flatMap_congr fun k hk => ?_
  rw [h.shows_free.lists k (Nat.lt_succ_iff.mp (mem_range.mp hk)), map_map, map_map]
  rfl

theorem Good.freePage_iff (h : Good P x free used) :
    FreePage P x p ↔ 0 < Buddy.freeCount P.order free p := by
  have hpage : (P.base + p * pmmPageSize - P.base) / pmmPageSize = p := by
    rw [Nat.add_sub_cancel_left, Nat.mul_div_cancel _ (by decide)]
  rw [h.ok.freeCount_pos_iff, FreePage, h.live_eq]
  simp only [forall_mem_map, mem_bytes_iff, hpage, Nat.le_add_right, true_and, ne_eq]

/-! ### What clients can rely on -/

/-- **The blocks partition the pool.** For every pool and every run of allocations and matching
frees: no two blocks, free or with a client, have an address in common, and together they have those
of the pool; each begins at a multiple of its size from the base; no two free blocks are the halves
of one; and when the clients have nothing there is one free block. -/
theorem blocks_partition (P : BuddyPool) (steps : List BuddyStep)
    (hok : RunOk (step P.order) Matching { mm := mmBuddyInit P.order P.base } steps) :
    let x := runFrom (step P.order) { mm := mmBuddyInit P.order P.base } steps
    ((blocks P.order x).Pairwise fun b c => Disjoint (bytes b) (bytes c)) ∧
      (∀ a, (∃ b ∈ blocks P.order x, a ∈ bytes b) ↔ P.base ≤ a ∧
        a < P.base + pmmPageSize * 2 ^ P.order) ∧
      (∀ b ∈ blocks P.order x, P.base ≤ b.1 ∧ pmmPageSize * 2 ^ b.2 ∣ b.1 - P.base) ∧
      (∀ k ≤ P.order, ∀ a ∈ x.mm.freeLists k, ∀ b ∈ x.mm.freeLists k, ¬ Buddies P.base k a b) ∧
      (x.live = [] → ∀ k ≤ P.order, x.mm.freeLists k = if k = P.order then [P.base] else []) := by
  intro x
  obtain ⟨free, used, hgood⟩ := good_run P hok
  change Good P x free used at hgood
  clear_value x
  refine ⟨?_, fun a => ?_, fun b hb => ?_, fun k hk a ha b hb => ?_, fun hnil k hk => ?_⟩
  · rw [hgood.blocks_eq, pairwise_map]
    refine hgood.ok.pairwise.imp fun hapart => Finset.disjoint_left.mpr fun a hab hac => ?_
    exact hapart _ ⟨(mem_bytes_iff.mp hab).2, (mem_bytes_iff.mp hac).2⟩
  · have hpool : a - P.base < pmmPageSize * 2 ^ P.order ↔ (a - P.base) / pmmPageSize < 2 ^ P.order := by
      rw [Nat.div_lt_iff_lt_mul (by decide), Nat.mul_comm]
    have hcover := hgood.ok.exists_block_iff (p := (a - P.base) / pmmPageSize)
    rw [hgood.blocks_eq]
    constructor
    · rintro ⟨_, hmem, hin⟩
      obtain ⟨b, hb, rfl⟩ := mem_map.mp hmem
      obtain ⟨hbase, hpage⟩ := mem_bytes_iff.mp hin
      have := hpool.mpr (hcover.mp ⟨b, hb, hpage⟩)
      omega
    · rintro ⟨hbase, hlt⟩
      obtain ⟨b, hb, hpage⟩ := hcover.mpr (hpool.mp (by omega))
      exact ⟨_, mem_map_of_mem hb, mem_bytes_iff.mpr ⟨hbase, hpage⟩⟩
  · rw [hgood.blocks_eq] at hb
    obtain ⟨⟨k, i⟩, -, rfl⟩ := mem_map.mp hb
    refine ⟨Nat.le_add_right .., ?_⟩
    rw [blockAddr, Nat.add_sub_cancel_left]
    exact Nat.dvd_mul_left ..
  · rintro ⟨hdvd, rfl⟩
    rw [hgood.shows_free.lists k hk, mem_map] at ha hb
    obtain ⟨i, hi, rfl⟩ := ha
    obtain ⟨j, hj, heq⟩ := hb
    -- The upper half has the next number, and the lower one an even number.
    obtain rfl : j = i + 1 := P.blockAddr_injective k (heq.trans (by rw [blockAddr, blockAddr]; ring))
    have heven : 2 ∣ i := by
      rw [blockAddr, Nat.add_sub_cancel_left, Nat.pow_succ, ← Nat.mul_assoc, Nat.mul_comm i] at hdvd
      exact Nat.dvd_of_mul_dvd_mul_left (size_pos k) hdvd
    have hxor : i ^^^ 1 = i + 1 := by
      have := Buddy.xor_one_div_two i
      have := Buddy.xor_one_mod_two i
      omega
    rcases hk.eq_or_lt with rfl | hlt
    · have := Nat.le_of_mul_le_mul_right
        ((hgood.ok.free_le le_rfl hj).trans_eq (Nat.one_mul _).symm) (by positivity)
      omega
    · exact hgood.ok.apart k hlt i hi (hxor ▸ hj)
  · have hused : used = [] := map_eq_nil_iff.mp (hgood.live_eq ▸ hnil)
    subst hused
    rw [hgood.shows_free.lists k hk, hgood.ok.free_eq_of_nil hk, Buddy.whole]
    split_ifs
    · simp [blockAddr]
    · rfl

/-- A pool of eight pages. -/
def eightPages : BuddyPool where
  order := 3
  base := 0x40000000
  base_pos := by norm_num
  fits := by norm_num [pmmPageSize]

/-- Two pages and one page are taken, and the two are given back. -/
def twoAndOne : List BuddyStep := [.allocPages 1, .allocPages 0, .freePages 0x40000000 1]

theorem blocks_partition_two_and_one :
    let x := runFrom (step eightPages.order) { mm := mmBuddyInit eightPages.order eightPages.base }
      twoAndOne
    x.live = [(0x40002000, 0)] ∧ blocks 3 x = [(0x40003000, 0), (0x40000000, 1), (0x40004000, 2), (0x40002000, 0)] ∧
      (blocks 3 x).Pairwise fun b c => Disjoint (bytes b) (bytes c) :=
  ⟨by decide +kernel, by decide +kernel, (blocks_partition eightPages twoAndOne (by decide +kernel)).1⟩

/-- **An allocation fails only if there is no room.** In every state that allocations and matching
frees can reach, an allocation of order `k` returns NULL just if no run of `2 ^ k` pages that is
aligned to as many is free, and what it returns otherwise is such a run. -/
theorem alloc_null_iff (P : BuddyPool) (steps : List BuddyStep)
    (hok : RunOk (step P.order) Matching { mm := mmBuddyInit P.order P.base } steps) (k : ℕ)
    (hk : k ≤ P.order) :
    let x := runFrom (step P.order) { mm := mmBuddyInit P.order P.base } steps
    ((mmBuddyAllocPages P.order x.mm k).2 = none ↔ ¬ ∃ i, ∀ p, p / 2 ^ k = i → FreePage P x p) ∧
      ∀ block ∈ (mmBuddyAllocPages P.order x.mm k).2,
        ∃ i, block = P.base + i * 2 ^ k * pmmPageSize ∧ ∀ p, p / 2 ^ k = i → FreePage P x p := by
  intro x
  obtain ⟨free, used, hgood⟩ := good_run P hok
  change Good P x free used at hgood
  clear_value x
  simp only [hgood.freePage_iff, ← hgood.ok.take_eq_none_iff hk]
  rcases hgood.shows_free.allocPages hgood.ok hk with ⟨htake, hnull⟩ | ⟨free', m, mm, htake, halloc, -⟩
  · simp [htake, hnull]
  · refine ⟨by simp [htake, halloc], fun block hblock => ⟨m, ?_, (hgood.ok.take htake).2.2⟩⟩
    rw [halloc, Option.mem_some_iff] at hblock
    rw [← hblock, blockAddr, Nat.mul_comm pmmPageSize, Nat.mul_assoc]

theorem alloc_null_iff_whole :
    let x := runFrom (step eightPages.order) { mm := mmBuddyInit eightPages.order eightPages.base }
      twoAndOne
    (mmBuddyAllocPages 3 x.mm 3).2 = none ∧ ¬ ∃ i, ∀ p, p / 2 ^ 3 = i → FreePage eightPages x p := by
  have hnull : (mmBuddyAllocPages 3
      (runFrom (step eightPages.order) { mm := mmBuddyInit eightPages.order eightPages.base }
        twoAndOne).mm 3).2 = none := by
    decide +kernel
  exact ⟨hnull, (alloc_null_iff eightPages twoAndOne (by decide +kernel) 3 (by decide)).1.mp hnull⟩

end BuddyClients

end Nonux.Components
