import Nonux.Core.Mmu

/-!
# Isolation of address spaces

Address spaces are made and taken down again while the kernel uses its heap and its page allocator
for other things. What user mode can reach from one process is not what it can reach from another,
and it is not memory that the kernel uses.

## What is proved

The tables of a process and the memory of its window are blocks of the heap, and so they are apart
from all others (`Good.tracked`). With `walk_space` this gives `isolated`, for every run of
permitted steps from boot.
-/

namespace Nonux.Core

open Nonux.Lib Nonux.Lib.BitArray Kheap Function List

/-! ### Who has which block -/

/-- The heap is in order, and these are the blocks that are live. -/
structure Tracked (pinned : ℕ → Prop) (q : KernelMem.Shape) (m : KernelMem)
    (blocks : List (ℕ × ℕ)) : Prop where
  kept : KernelMem.Kept pinned q m
  perm : m.live.Perm blocks

namespace Tracked

variable {pinned : ℕ → Prop} {q : KernelMem.Shape} {m : KernelMem} {blocks : List (ℕ × ℕ)} {n p : ℕ}

theorem mono {blocks' : List (ℕ × ℕ)} (h : Tracked pinned q m blocks) (hperm : blocks.Perm blocks') :
    Tracked pinned q m blocks' :=
  ⟨h.kept, h.perm.trans hperm⟩

theorem apart (h : Tracked pinned q m blocks) :
    blocks.Pairwise Apart := (h.perm.pairwise_iff Apart.symm).mp h.kept.live_apart

theorem inside (h : Tracked pinned q m blocks) {b : ℕ × ℕ} (hb : b ∈ blocks) :
    0 < b.2 ∧ q.base + 4096 ≤ b.1 ∧ b.1 + b.2 ≤ q.base + q.total * 4096 :=
  h.kept.live_inside (h.perm.mem_iff.mpr hb)

/-- Different blocks have different addresses. -/
theorem ne_of_apart (h : Tracked pinned q m blocks) {b c : ℕ × ℕ} (hb : b ∈ blocks)
    (hc : c ∈ blocks) (hapart : Apart b c) : b.1 ≠ c.1 := by
  have hbpos := (h.inside hb).1
  have hcpos := (h.inside hc).1
  unfold Apart at hapart
  omega

/-- The kernel asks for a block of a size that is fixed. -/
theorem malloc (h : Tracked pinned q m blocks) (hn : 0 < n) (hround : n + 15 < 2 ^ 64) :
    Tracked pinned q (m.step (.malloc n))
      (if (m.heap.malloc n).2 = 0 then blocks else ((m.heap.malloc n).2, n) :: blocks) := by
  obtain ⟨hkept, hlive⟩ := h.kept.malloc hn hround
  refine ⟨hkept, ?_⟩
  rw [hlive]
  split_ifs
  · exact h.perm
  · exact h.perm.cons _

/-- It gives a block back. -/
theorem free (h : Tracked pinned q m ((p, n) :: blocks)) :
    Tracked pinned q (m.step (.free p)) blocks := by
  have hmem : (p, n) ∈ m.live := h.perm.mem_iff.mpr mem_cons_self
  refine ⟨h.kept.step (a := .free p) ⟨_, hmem, rfl⟩ trivial, ?_⟩
  have hne : ∀ b ∈ blocks, b.1 ≠ p := fun b hb =>
    (h.ne_of_apart mem_cons_self (mem_cons_of_mem _ hb) ((pairwise_cons.mp h.apart).1 b hb)).symm
  have hfilter := h.perm.filter fun b => decide (b.1 ≠ p)
  rw [filter_cons_of_neg (by simp), (filter_eq_self (l := blocks)).mpr
    fun b hb => by simpa using hne b hb] at hfilter
  exact hfilter

end Tracked

/-- A list with one element replaced. -/
theorem flatMap_set_perm {α β : Type*} (f : α → List β) (l : List α) (i : ℕ) (a : α)
    (hi : i < l.length) : ((l.set i a).flatMap f ++ f l[i]).Perm (l.flatMap f ++ f a) := by
  induction l generalizing i with
  | nil => cases hi
  | cons b l ih =>
    cases i with
    | zero =>
      simp only [set_cons_zero, flatMap_cons, getElem_cons_zero]
      exact perm_append_comm.trans (by
        rw [append_assoc]
        exact List.Perm.append_left _ perm_append_comm)
    | succ i =>
      simp only [set_cons_succ, flatMap_cons, getElem_cons_succ, append_assoc]
      exact (ih i (Nat.lt_of_succ_lt_succ hi)).append_left _

theorem perm_three_append {α : Type*} (a b c : α) (l l' : List α) :
    (a :: b :: c :: (l ++ l')).Perm (l ++ [c, b, a] ++ l') := by
  have hthree : [a, b, c].Perm [c, b, a] := reverse_perm [c, b, a]
  exact (((hthree.append_right l).trans perm_append_comm).append_right l')

/-! ### Steps -/

/-- The memory map, and what the kernel has on its heap beside it. -/
structure MmuRun where
  mmu : Mmu
  others : List (ℕ × ℕ) := []

/-- What happens. -/
inductive MmuStep where
  | createAddressSpace
  | destroyAddressSpace (root : ℕ)
  | kernel (a : KmemStep)

namespace MmuRun

/-- What the kernel has on the heap after a call. -/
def othersAfter (x : MmuRun) : KmemStep → List (ℕ × ℕ)
  | .malloc n =>
    if (x.mmu.kmem.heap.malloc n).2 = 0 then x.others else ((x.mmu.kmem.heap.malloc n).2, n) :: x.others
  | .calloc count size =>
    if (x.mmu.kmem.heap.calloc count size).2 = 0 then x.others
    else ((x.mmu.kmem.heap.calloc count size).2, count * size) :: x.others
  | .free p => x.others.filter fun b => b.1 ≠ p
  | .allocPages _ | .freePages _ _ => x.others

def step (k : Image) (x : MmuRun) : MmuStep → MmuRun
  | .createAddressSpace => { x with mmu := (x.mmu.mmuCreateAddressSpace k).1 }
  | .destroyAddressSpace root => { x with mmu := x.mmu.mmuDestroyAddressSpace k root }
  | .kernel a => { mmu := { x.mmu with kmem := x.mmu.kmem.step a }, others := x.othersAfter a }

/-- The kernel frees what it has itself, and asks for sizes that can be rounded up. -/
def Permitted (x : MmuRun) : MmuStep → Prop
  | .createAddressSpace | .destroyAddressSpace _ => True
  | .kernel (.free p) => ∃ b ∈ x.others, b.1 = p
  | .kernel a => x.mmu.kmem.Matching a ∧ x.mmu.kmem.Sized a

/-- The blocks of an address space. -/
def blocksOf (s : AddressSpace) : List (ℕ × ℕ) :=
  if s.l1RootPa = 0 then []
  else [(s.l1Page, 4096), (s.l2RamPage, 4096), (s.userBackingRaw, userWindowSize + userBlockSize)]

/-- The blocks of all address spaces. -/
def ownedBlocks (x : Mmu) : List (ℕ × ℕ) := x.spaces.flatMap blocksOf

/-- The invariant. -/
structure Good (k : Image) (pinned : ℕ → Prop) (q : KernelMem.Shape) (x : MmuRun) : Prop where
  tracked : Tracked pinned q x.mmu.kmem (ownedBlocks x.mmu ++ x.others)
  tables : TablesOk k x.mmu.tables
  spaces : ∀ s ∈ x.mmu.spaces, s.l1RootPa ≠ 0 → SpaceOk k x.mmu.tables s

variable {k : Image} {pinned : ℕ → Prop} {q : KernelMem.Shape} {x : MmuRun}

theorem mem_ownedBlocks {s : AddressSpace} (hs : s ∈ x.mmu.spaces) (hroot : s.l1RootPa ≠ 0) {b : ℕ × ℕ}
    (hb : b ∈ [(s.l1Page, 4096), (s.l2RamPage, 4096),
      (s.userBackingRaw, userWindowSize + userBlockSize)]) :
    b ∈ ownedBlocks x.mmu ++ x.others :=
  mem_append_left _ (mem_flatMap.mpr ⟨s, hs, by rwa [blocksOf, if_neg hroot]⟩)

/-! ### The kernel -/

theorem Good.kernel (h : Good k pinned q x) {a : KmemStep} (hok : x.Permitted (.kernel a)) :
    Good k pinned q (x.step k (.kernel a)) := by
  refine ⟨?_, h.tables, h.spaces⟩
  change Tracked pinned q (x.mmu.kmem.step a) (ownedBlocks x.mmu ++ x.othersAfter a)
  have hcons : ∀ b, (b :: x.mmu.kmem.live).Perm (ownedBlocks x.mmu ++ b :: x.others) := fun b =>
    (h.tracked.perm.cons b).trans perm_middle.symm
  cases a with
  | malloc n | calloc count size =>
    refine ⟨h.tracked.kept.step hok.1 hok.2, ?_⟩
    simp only [KernelMem.step, KernelMem.got, othersAfter]
    split_ifs
    · exact h.tracked.perm
    · exact hcons _
  | free p =>
    obtain ⟨⟨p, n⟩, hb, rfl⟩ := hok
    have hmem : (p, n) ∈ ownedBlocks x.mmu ++ x.others := mem_append_right _ hb
    have hne : ∀ b ∈ ownedBlocks x.mmu, b.1 ≠ p := fun b hb' =>
      h.tracked.ne_of_apart (mem_append_left _ hb') hmem
        ((pairwise_append.mp h.tracked.apart).2.2 b hb' _ hb)
    refine ⟨h.tracked.kept.step (a := .free p) ⟨_, h.tracked.perm.mem_iff.mpr hmem, rfl⟩ trivial, ?_⟩
    have hfilter := h.tracked.perm.filter fun b => decide (b.1 ≠ p)
    rw [filter_append, (filter_eq_self (l := ownedBlocks x.mmu)).mpr
      fun b hb => by simpa using hne b hb] at hfilter
    exact hfilter
  | allocPages count =>
    refine ⟨h.tracked.kept.step hok.1 hok.2, ?_⟩
    have hlive : (x.mmu.kmem.step (.allocPages count)).live = x.mmu.kmem.live := by
      simp only [KernelMem.step]
      rcases x.mmu.kmem.heap.pmm.pmmAllocPages count with ⟨pmm, _ | page⟩
      · rfl
      · rfl
    rw [hlive]
    exact h.tracked.perm
  | freePages page count => exact ⟨h.tracked.kept.step hok.1 hok.2, h.tracked.perm⟩

/-! ### Taking an address space down -/

theorem Good.destroy (h : Good k pinned q x) (root : ℕ) :
    Good k pinned q (x.step k (.destroyAddressSpace root)) := by
  simp only [step, Mmu.mmuDestroyAddressSpace]
  split_ifs with hzero hkernel
  · exact h
  · exact h
  cases hfind : x.mmu.findSpaceByRoot root with
  | none => exact h
  | some slot =>
    obtain ⟨hlt, hroot, -⟩ := findIdx?_eq_some_iff_getElem.mp hfind
    have hget : x.mmu.spaces.getD slot {} = x.mmu.spaces[slot] := by
      rw [getD_eq_getElem?_getD, getElem?_eq_getElem hlt, Option.getD_some]
    have hroot : x.mmu.spaces[slot].l1RootPa = root := by simpa using hroot
    have hperm := flatMap_set_perm blocksOf x.mmu.spaces slot {} hlt
    rw [show blocksOf {} = [] from rfl, append_nil, blocksOf, if_neg (hroot ▸ hzero)] at hperm
    simp only [hget]
    refine ⟨?_, h.tables, fun s hs hne => ?_⟩
    · have hblocks := h.tracked.mono ((hperm.symm.trans perm_append_comm).append_right x.others)
      exact hblocks.free.free.free
    · rcases mem_or_eq_of_mem_set hs with hs | rfl
      · exact h.spaces s hs hne
      · exact absurd rfl hne

/-! ### Making one -/

/-- The pool is between the end of the kernel and the end of memory. -/
structure Placed (k : Image) (q : KernelMem.Shape) : Prop where
  low : k.freeMemStart ≤ q.base
  high : q.base + q.total * 4096 ≤ ramEnd

/-- The window is aligned within the request for it. -/
theorem userPa_eq {raw : ℕ} (hraw : raw + (userWindowSize + userBlockSize) ≤ ramEnd) :
    Mmu.userPa raw % 2 ^ 21 = 0 ∧ raw ≤ Mmu.userPa raw ∧
      Mmu.userPa raw + userWindowSize ≤ raw + (userWindowSize + userBlockSize) := by
  have hmask : Mmu.userPa raw = (raw + 2 ^ 21 - 1) % 2 ^ 64 / 2 ^ 21 * 2 ^ 21 :=
    and_mask_eq (k := 21) (Nat.mod_lt _ (Nat.two_pow_pos 64)) (by norm_num)
  simp only [userWindowSize, userWindowBlocks, userBlockSize, ramEnd] at hraw ⊢
  rw [hmask]
  omega

/-- The tables of other pages are left alone. -/
theorem populate_tables (k : Image) (y : Mmu) {slot l1 l2r raw page : ℕ} (h1 : page ≠ l1)
    (h2 : page ≠ l2r) : (y.populate k slot l1 l2r raw).tables page = y.tables page := by
  simp only [Mmu.populate, Mmu.writeL2, Mmu.writeL1, update_of_ne h2, update_of_ne h1]

theorem Good.populate (h : Good k pinned q x) (hq : Placed k q) {m : KernelMem} {slot l1 l2r raw : ℕ}
    (hslot : x.mmu.allocSpaceSlot = some slot)
    (ht : Tracked pinned q m ((raw, userWindowSize + userBlockSize) :: (l2r, 4096) :: (l1, 4096) ::
      (ownedBlocks x.mmu ++ x.others))) :
    Good k pinned q { x with mmu := ({ x.mmu with kmem := m } : Mmu).populate k slot l1 l2r raw } := by
  obtain ⟨hlt, hfree, -⟩ := findIdx?_eq_some_iff_getElem.mp hslot
  have hfree : x.mmu.spaces[slot].l1RootPa = 0 := by simpa using hfree
  obtain ⟨-, hraw⟩ := ht.inside (b := (raw, userWindowSize + userBlockSize)) (by simp)
  have hl2r := ht.inside (b := (l2r, 4096)) (by simp)
  have hl1 := ht.inside (b := (l1, 4096)) (by simp)
  have hne : ∀ b ∈ ownedBlocks x.mmu ++ x.others, b.1 ≠ l1 ∧ b.1 ≠ l2r := fun b hb => by
    obtain ⟨-, hrest⟩ := pairwise_cons.mp ht.apart
    obtain ⟨h2, hrest⟩ := pairwise_cons.mp hrest
    obtain ⟨h1, -⟩ := pairwise_cons.mp hrest
    exact ⟨(ht.ne_of_apart (by simp) (by simp [hb]) (h1 b hb)).symm,
      (ht.ne_of_apart (by simp) (by simp [hb]) (h2 b (by simp [hb]))).symm⟩
  have hpages : l1 ≠ l2r := by
    obtain ⟨-, hrest⟩ := pairwise_cons.mp ht.apart
    exact (ht.ne_of_apart (b := (l2r, 4096)) (c := (l1, 4096)) (by simp) (by simp)
      ((pairwise_cons.mp hrest).1 _ (by simp))).symm
  -- The tables of the kernel are below the pool.
  have hkernel : ∀ t ∈ [k.l1Table, k.l2MmioTable, k.l2RamTable], t ≠ l1 ∧ t ≠ l2r := fun t ht' => by
    have hin := k.inside t ht'
    have hlow := hq.low
    dsimp only at hl1 hl2r
    omega
  have hsame : ∀ page, page ≠ l1 ∧ page ≠ l2r →
      (({ x.mmu with kmem := m } : Mmu).populate k slot l1 l2r raw).tables page = x.mmu.tables
        page := fun page hpage =>
    populate_tables k _ hpage.1 hpage.2
  refine ⟨⟨?_, ?_⟩, ⟨?_, ?_, ?_⟩, fun s hs hroot => ?_⟩
  · exact ht.kept.setMem _
  · have hperm := flatMap_set_perm blocksOf x.mmu.spaces slot
      { l1RootPa := l1
        l1Page := l1
        l2RamPage := l2r
        userBacking := Mmu.userPa raw
        userBackingRaw := raw } hlt
    have hroot : l1 ≠ 0 := by
      dsimp only at hl1
      omega
    rw [show blocksOf x.mmu.spaces[slot] = []
      by rw [blocksOf, if_pos hfree], append_nil, blocksOf, if_neg hroot] at hperm
    have hnew := perm_three_append (raw, userWindowSize + userBlockSize) (l2r, 4096) (l1, 4096)
      (ownedBlocks x.mmu) x.others
    rw [Mmu.populate, KernelMem.setMem_live]
    exact (ht.perm.trans hnew).trans (hperm.symm.append_right x.others)
  · exact (hsame _ (hkernel _ (by simp))).trans h.tables.l1
  · exact (hsame _ (hkernel _ (by simp))).trans h.tables.mmio
  · exact (hsame _ (hkernel _ (by simp))).trans h.tables.ram
  · rcases mem_or_eq_of_mem_set hs with hs | rfl
    · -- An address space that was there has other pages.
      have hspace := h.spaces s hs hroot
      have hp1 := hne _ (mem_ownedBlocks hs hroot (b := (s.l1Page, 4096)) (by simp))
      have hp2 := hne _ (mem_ownedBlocks hs hroot (b := (s.l2RamPage, 4096)) (by simp))
      exact { hspace with l1 := (hsame _ hp1).trans hspace.l1, l2 := (hsame _ hp2).trans hspace.l2 }
    · have hhigh := hq.high
      have hfits : raw + (userWindowSize + userBlockSize) ≤ ramEnd := by
        dsimp only at hraw
        omega
      obtain ⟨haligned, hlow, hend⟩ := userPa_eq hfits
      refine ⟨rfl, ?_, ?_, haligned, hlow, hend⟩
      · simp only [Mmu.populate, Mmu.writeL2, Mmu.writeL1, update_of_ne hpages, update_self]
      · simp only [Mmu.populate, Mmu.writeL2, Mmu.writeL1, update_self,
          update_of_ne (hkernel k.l2RamTable (by simp)).1, h.tables.ram]

theorem Good.create (h : Good k pinned q x) (hq : Placed k q) :
    Good k pinned q (x.step k .createAddressSpace) := by
  simp only [step, Mmu.mmuCreateAddressSpace]
  cases hslot : x.mmu.allocSpaceSlot with
  | none => exact h
  | some slot =>
    -- The heap gives back what it has given, if something is missing.
    have hback : ∀ m, Tracked pinned q m (ownedBlocks x.mmu ++ x.others) →
        Good k pinned q { x with mmu := { x.mmu with kmem := m } } := fun m hm =>
          ⟨hm, h.tables, h.spaces⟩
    have h1 := h.tracked.malloc (n := 4096) (by norm_num) (by norm_num)
    dsimp only
    generalize (x.mmu.kmem.heap.malloc 4096).2 = l1 at h1 ⊢
    generalize x.mmu.kmem.step (.malloc 4096) = m1 at h1 ⊢
    have h2 := h1.malloc (n := 4096) (by norm_num) (by norm_num)
    generalize (m1.heap.malloc 4096).2 = l2r at h2 ⊢
    generalize m1.step (.malloc 4096) = m2 at h2 ⊢
    have h3 := h2.malloc (n := userWindowSize + userBlockSize) (by decide) (by decide)
    generalize (m2.heap.malloc (userWindowSize + userBlockSize)).2 = raw at h3 ⊢
    generalize m2.step (.malloc (userWindowSize + userBlockSize)) = m3 at h3 ⊢
    by_cases hl1 : l1 = 0
    · rw [if_pos (.inl hl1), if_neg (not_not.mpr hl1)]
      rw [if_pos hl1] at h2
      split_ifs with hl2r
      · rw [if_neg hl2r] at h2
        exact hback _ h2.free
      · rw [if_pos (not_not.mp hl2r)] at h2
        exact hback _ h2
    · rw [if_neg hl1] at h2 h3
      by_cases hl2r : l2r = 0
      · rw [if_pos (.inr hl2r), if_pos hl1, if_neg (not_not.mpr hl2r)]
        rw [if_pos hl2r] at h2
        exact hback _ h2.free
      · rw [if_neg (not_or.mpr ⟨hl1, hl2r⟩)]
        rw [if_neg hl2r] at h3
        split_ifs with hraw
        · rw [if_pos hraw] at h3
          exact hback _ (h3.mono (List.Perm.swap ..)).free.free
        · rw [if_neg hraw] at h3
          exact h.populate hq hslot h3

theorem Good.step (h : Good k pinned q x) (hq : Placed k q) {a : MmuStep} (hok : x.Permitted a) :
    Good k pinned q (x.step k a) := by
  cases a with
  | createAddressSpace => exact h.create hq
  | destroyAddressSpace root => exact h.destroy root
  | kernel a => exact h.kernel hok

/-! ### Isolation -/

/-- Address space `i` is one of a process. -/
def LiveAt (x : Mmu) (i : ℕ) (s : AddressSpace) : Prop := x.spaces[i]? = some s ∧ s.l1RootPa ≠ 0

/-- User mode can reach a byte of memory. -/
def Reaches (x : Mmu) (s : AddressSpace) (pa : ℕ) : Prop :=
  ∃ va < 2 ^ 39, ∃ d, walk x.tables s.l1RootPa va = some (pa, d) ∧ el0 d = true

/-- A byte is in a block. -/
def InBlock (b : ℕ × ℕ) (a : ℕ) : Prop := b.1 ≤ a ∧ a < b.1 + b.2

/-- What user mode reaches in one address space is not what it reaches in another, and no table, nor
anything else that the kernel has; and all else that is mapped is as in the map of the kernel, at
its own address and not for user mode. -/
structure Isolated (k : Image) (x : MmuRun) : Prop where
  spaces : ∀ i j s t, i ≠ j → LiveAt x.mmu i s → LiveAt x.mmu j t → ∀ pa, Reaches x.mmu s pa →
    ¬ Reaches x.mmu t pa
  kernelTables : ∀ i s, LiveAt x.mmu i s → ∀ pa, Reaches x.mmu s pa →
    ∀ t ∈ [k.l1Table, k.l2MmioTable, k.l2RamTable], ¬ InBlock (t, 4096) pa
  tables : ∀ i j s t, LiveAt x.mmu i s → LiveAt x.mmu j t → ∀ pa, Reaches x.mmu s pa →
    ¬ InBlock (t.l1Page, 4096) pa ∧ ¬ InBlock (t.l2RamPage, 4096) pa
  blocks : ∀ i s, LiveAt x.mmu i s → ∀ pa, Reaches x.mmu s pa → ∀ b ∈ x.others, ¬ InBlock b pa
  pages : ∀ i s, LiveAt x.mmu i s → ∀ pa, Reaches x.mmu s pa →
    ∀ run ∈ x.mmu.kmem.pages, ¬ InBlock (run.1, run.2 * 4096) pa
  kernel : ∀ i s, LiveAt x.mmu i s → ∀ va < 2 ^ 39, ∀ pa d, walk x.mmu.tables s.l1RootPa
    va = some (pa, d) → el0 d = true ∨ pa = va ∧ walk x.mmu.tables k.l1Table va = some (pa, d)

theorem InBlock.not_of_apart {b c : ℕ × ℕ} {a : ℕ} (hapart : Apart b c) (hb : InBlock b a) :
    ¬ InBlock c a := by
  unfold Apart at hapart
  unfold InBlock at hb ⊢
  omega

/-- The blocks of two address spaces are apart. -/
theorem Good.blocks_apart (h : Good k pinned q x) {i j : ℕ} {s t : AddressSpace} (hij : i ≠ j)
    (hs : LiveAt x.mmu i s) (ht : LiveAt x.mmu j t) :
    ∀ b ∈ blocksOf s, ∀ c ∈ blocksOf t, Apart b c := by
  have hpair := (pairwise_flatMap.mp (pairwise_append.mp h.tracked.apart).1).2
  obtain ⟨hi, rfl⟩ := List.getElem?_eq_some_iff.mp hs.1
  obtain ⟨hj, rfl⟩ := List.getElem?_eq_some_iff.mp ht.1
  rcases Nat.lt_or_gt_of_ne hij with hlt | hlt
  · exact pairwise_iff_getElem.mp hpair i j hi hj hlt
  · exact fun b hb c hc => (pairwise_iff_getElem.mp hpair j i hj hi hlt c hc b hb).symm

/-- What is needed to walk the tables of an address space. -/
theorem Good.space (h : Good k pinned q x) (hq : Placed k q) {i : ℕ} {s : AddressSpace}
    (hs : LiveAt x.mmu i s) :
    SpaceOk k x.mmu.tables s ∧ s.l2RamPage % 2 ^ 12 = 0 ∧ s.l2RamPage < 2 ^ 48 ∧
      s.userBacking + userWindowSize ≤ 2 ^ 48 := by
  have hmem : s ∈ x.mmu.spaces := mem_of_getElem? hs.1
  have hspace := h.spaces s hmem hs.2
  have hpage := mem_ownedBlocks hmem hs.2 (b := (s.l2RamPage, 4096)) (by simp)
  have hraw := mem_ownedBlocks hmem hs.2 (b := (s.userBackingRaw, userWindowSize + userBlockSize))
    (by simp)
  have hin := h.tracked.inside hpage
  have hin' := h.tracked.inside hraw
  have hhigh := hq.high
  have hend := hspace.high
  have hram : ramEnd = 0x80000000 := rfl
  dsimp only at hin hin'
  exact ⟨hspace, h.tracked.kept.large_aligned (h.tracked.perm.mem_iff.mpr hpage) (by norm_num),
    by omega, by omega⟩

/-- User mode reaches the memory of the window, and nothing else. -/
theorem Good.reaches (h : Good k pinned q x) (hq : Placed k q) {i pa : ℕ} {s : AddressSpace}
    (hs : LiveAt x.mmu i s) (hpa : Reaches x.mmu s pa) :
    InBlock (s.userBackingRaw, userWindowSize + userBlockSize) pa := by
  obtain ⟨va, -, d, hwalk, hel0⟩ := hpa
  obtain ⟨hspace, hpage, hlow, hbacking⟩ := h.space hq hs
  rcases walk_space h.tables hspace hpage hlow hbacking hwalk with ⟨hva, hva', heq, -⟩ | ⟨-, hkernel, -⟩
  · have hbelow := hspace.low
    have habove := hspace.high
    unfold InBlock
    dsimp only
    clear hwalk
    omega
  · rw [hel0] at hkernel
    cases hkernel

/-- **Isolation** follows from the invariant. -/
theorem Good.keepsApart (h : Good k pinned q x) (hq : Placed k q) : Isolated k x := by
  have hraw : ∀ s : AddressSpace, s.l1RootPa ≠ 0 →
      (s.userBackingRaw, userWindowSize + userBlockSize) ∈ blocksOf s := fun s hs => by
        simp [blocksOf, hs]
  have hmem : ∀ i s, LiveAt x.mmu i s →
      (s.userBackingRaw, userWindowSize + userBlockSize) ∈ ownedBlocks x.mmu ++ x.others :=
    fun i s hs => mem_ownedBlocks (mem_of_getElem? hs.1) hs.2 (by simp)
  refine ⟨fun i j s t hij hs ht pa hpa hpa' => ?_, fun i s hs pa hpa t ht hin => ?_,
    fun i j s t hs ht pa hpa => ?_, fun i s hs pa hpa b hb => ?_, fun i s hs pa hpa run hrun => ?_,
      fun i s hs va hva pa d hwalk => ?_⟩
  · have hapart := h.blocks_apart hij hs ht _ (hraw s hs.2) _ (hraw t ht.2)
    exact (h.reaches hq hs hpa).not_of_apart hapart (h.reaches hq ht hpa')
  · -- The tables of the kernel are below the pool.
    have hlow := hq.low
    have htable := k.inside t ht
    have hpool := h.tracked.inside (hmem i s hs)
    have hreach := h.reaches hq hs hpa
    unfold InBlock at hin hreach
    dsimp only at hin hreach hpool
    omega
  · have hreach := h.reaches hq hs hpa
    have hpages : (t.l1Page, 4096) ∈ blocksOf t ∧ (t.l2RamPage, 4096) ∈ blocksOf t := by
      simp [blocksOf, ht.2]
    by_cases hij : i = j
    · subst hij
      obtain rfl : s = t := Option.some_inj.mp (hs.1.symm.trans ht.1)
      -- Within one address space the memory is apart from the tables.
      have hpair := (pairwise_flatMap.mp (pairwise_append.mp h.tracked.apart).1).1 s
        (mem_of_getElem? hs.1)
      rw [blocksOf, if_neg hs.2] at hpair
      obtain ⟨h1, hrest⟩ := pairwise_cons.mp hpair
      obtain ⟨h2, -⟩ := pairwise_cons.mp hrest
      exact ⟨hreach.not_of_apart (h1 _ (by simp)).symm, hreach.not_of_apart (h2 _ (by simp)).symm⟩
    · have hapart := h.blocks_apart hij hs ht _ (hraw s hs.2)
      exact ⟨hreach.not_of_apart (hapart _ hpages.1), hreach.not_of_apart (hapart _ hpages.2)⟩
  · have hown : (s.userBackingRaw, userWindowSize + userBlockSize) ∈ ownedBlocks x.mmu :=
      mem_flatMap.mpr ⟨s, mem_of_getElem? hs.1, hraw s hs.2⟩
    exact (h.reaches hq hs hpa).not_of_apart ((pairwise_append.mp h.tracked.apart).2.2 _ hown b hb)
  · have hlive := h.tracked.perm.mem_iff.mpr (hmem i s hs)
    exact (h.reaches hq hs hpa).not_of_apart (h.tracked.kept.pages_apart hlive hrun)
  · obtain ⟨hspace, hpage, hlow, hbacking⟩ := h.space hq hs
    rcases walk_space h.tables hspace hpage hlow hbacking hwalk with ⟨-, -, -, huser⟩ | ⟨hself, -,
      hkernel⟩
    · exact .inl huser
    · exact .inr ⟨hself, hkernel⟩

/-! ### Boot -/

/-- Free memory, as a region. -/
def freeRegion (k : Image) : Region where
  base := k.freeMemStart
  size := ramEnd - k.freeMemStart
  base_lt := k.free_le.trans_lt (by decide)
  size_lt := (Nat.sub_le ..).trans_lt (by decide)
  fits := by
    have hfree := k.free_le
    simp only [userWindowVa, ramBase, userWindowIndex, userBlockSize, ramEnd] at hfree ⊢
    omega

/-- The page allocator over free memory. -/
def initPmm (k : Image) (old : ℕ → BitVec 8) : Pmm :=
  Pmm.pmmInit old (freeRegion k).base (freeRegion k).size

/-- The page allocator after boot, with the window reserved. -/
def bootPmm (k : Image) (old : ℕ → BitVec 8) : Pmm :=
  (initPmm k old).pmmReserveRange userWindowVa userWindowSize

/-- The state after boot. -/
def boot (k : Image) (old mem : ℕ → BitVec 8) (tables : ℕ → ℕ → Desc) : MmuRun where
  mmu := { kmem := KernelMem.start (bootPmm k old) mem, tables := mmuInit k tables }

/-- The pages of the window. -/
def windowPage (k : Image) (old : ℕ → BitVec 8) (i : ℕ) : Prop :=
  (initPmm k old).Overlaps userWindowVa userWindowSize i

theorem initPmm_tracks (k : Image) (old : ℕ → BitVec 8) : (initPmm k old).Tracks (fun _ => False) [] :=
  PmmClients.tracks_init old (freeRegion k)

/-- The pool begins with the first whole page of free memory. -/
theorem initPmm_pool (k : Image) (old : ℕ → BitVec 8) :
    k.freeMemStart ≤ (initPmm k old).base ∧ (initPmm k old).base ≤ k.freeMemStart + 4095 ∧
      (initPmm k old).base + (initPmm k old).total * 4096 ≤ ramEnd := by
  have hfree := k.free_le
  have hbase : (initPmm k old).base = (k.freeMemStart + 4096 - 1) % 2 ^ 64 / 4096 * 4096 :=
    pageFloor_eq (Nat.mod_lt _ (Nat.two_pow_pos 64))
  obtain ⟨-, -, hpool⟩ := Pmm.pmmInit_pool old (freeRegion k)
  change 0 < (initPmm k old).total → k.freeMemStart ≤ (initPmm k old).base ∧
    (initPmm k old).base + (initPmm k old).total * 4096 ≤
      k.freeMemStart + (ramEnd - k.freeMemStart) at hpool
  simp only [userWindowVa, ramBase, userWindowIndex, userBlockSize, ramEnd] at hfree hpool ⊢
  omega

theorem bootPmm_tracks (k : Image) (old : ℕ → BitVec 8) :
    (bootPmm k old).Tracks (fun i => False ∨ windowPage k old i) [] := by
  obtain ⟨hlow, hhigh, hend⟩ := initPmm_pool k old
  have hfree := k.free_le
  obtain ⟨hva, hsize, -⟩ := window_eq
  have hram : ramEnd = 0x80000000 := rfl
  refine (initPmm_tracks k old).reserve (by omega) (by omega) (by omega) ?_
  unfold Pmm.ReserveCond
  rw [if_pos (by simp only [pmmPageSize]; omega)]
  exact .inr (by simp only [pmmPageSize]; omega)

theorem good_boot (k : Image) (old mem : ℕ → BitVec 8) (tables : ℕ → ℕ → Desc) :
    Good k (fun i => False ∨ windowPage k old i) (KernelMem.shape (bootPmm k old))
      (boot k old mem tables) := by
  have hnodup := k.nodup
  simp only [nodup_cons, mem_cons, not_mem_nil, or_false, not_or] at hnodup
  obtain ⟨⟨hmmio, hram⟩, hboth, -⟩ := hnodup
  have hnone : ownedBlocks (boot k old mem tables).mmu = [] := by
    simp [ownedBlocks, boot, blocksOf]
  refine ⟨⟨KernelMem.kept_start mem (bootPmm_tracks k old), ?_⟩, ⟨?_, ?_, ?_⟩, fun s hs hroot => ?_⟩
  · rw [hnone]
    exact .refl _
  · exact update_self ..
  · change mmuInit k tables k.l2MmioTable = _
    rw [mmuInit, update_of_ne (Ne.symm hmmio), update_of_ne hboth, update_self]
  · change mmuInit k tables k.l2RamTable = _
    rw [mmuInit, update_of_ne (Ne.symm hram), update_self]
  · rw [eq_of_mem_replicate hs] at hroot
    exact absurd rfl hroot

theorem shape_pmmReserveRange {s : Pmm} (hfree : s.free < 2 ^ 64) (pa bytes : ℕ) :
    KernelMem.shape (s.pmmReserveRange pa bytes) = KernelMem.shape s := by
  obtain ⟨a, n, -, -, heq⟩ := Pmm.exists_stretch hfree pa bytes
  rw [heq]
  rfl

theorem placed_boot (k : Image) (old : ℕ → BitVec 8) : Placed k (KernelMem.shape (bootPmm k old)) := by
  obtain ⟨hlow, -, hend⟩ := initPmm_pool k old
  rw [bootPmm, shape_pmmReserveRange (initPmm_tracks k old).ok.free_lt]
  exact ⟨hlow, hend⟩

/-- **Isolation of address spaces.** From boot on, whatever address spaces are made and taken down,
and whatever the kernel allocates and frees meanwhile, as long as it asks for sizes that can be
rounded up: what user mode reaches in one process it does not reach in another, and it is no
translation table and nothing that the kernel has. -/
theorem isolated (k : Image) (old mem : ℕ → BitVec 8) (tables : ℕ → ℕ → Desc) (steps : List MmuStep)
    (hok : RunOk (step k) Permitted (boot k old mem tables) steps) :
    Isolated k (runFrom (step k) (boot k old mem tables) steps) :=
  (hok.inv (Good k _ _) (fun _ _ hstep h => h.step (placed_boot k old) hstep)
    (good_boot k old mem tables)).keepsApart (placed_boot k old)

/-- A kernel of 1 MiB. -/
def smallImage : Image where
  l1Table := 0x40080000
  l2MmioTable := 0x40081000
  l2RamTable := 0x40082000
  freeMemStart := 0x40100000
  nodup := by decide
  aligned := by decide
  inside := by decide
  free_le := by decide

/-- Two processes, of which the first goes away; and the kernel asks for something in between. -/
def twoProcesses : List MmuStep :=
  [.createAddressSpace, .kernel (.malloc 100), .createAddressSpace, .destroyAddressSpace 0x40108000]

theorem isolated_twoProcesses :
    Isolated smallImage (runFrom (step smallImage) (boot smallImage (fun _ => 0#8) (fun _ => 0#8)
      fun _ _ => 0) twoProcesses) :=
  isolated smallImage _ _ _ twoProcesses ⟨trivial, ⟨by decide, .inl (by norm_num)⟩, trivial,
    trivial, trivial⟩

end MmuRun

/-! ### A request that cannot be rounded up -/

/-- The heap has one page for pieces, the first of the pool, with so much of it used; and these are
the other runs of pages. -/
structure FirstPage (pinned : ℕ → Prop) (q : KernelMem.Shape) (m : KernelMem) (used : ℕ)
    (runs : List (ℕ × ℕ)) : Prop where
  tracks : m.heap.pmm.Tracks pinned ((q.reserved, 1) :: runs)
  shape_eq : KernelMem.shape m.heap.pmm = q
  next_eq : m.heap.slabNext = q.base + q.reserved * 4096 + used
  end_eq : m.heap.slabEnd = q.base + q.reserved * 4096 + 4096
  below : q.base + q.total * 4096 ≤ ramEnd

namespace FirstPage

variable {pinned : ℕ → Prop} {q : KernelMem.Shape} {m : KernelMem} {used n : ℕ} {runs : List (ℕ × ℕ)}

theorem of_hint {pmm : Pmm} (mem : ℕ → BitVec 8) (htracks : pmm.Tracks pinned [])
    (hhint : pmm.hint = pmm.reserved) (hlt : pmm.reserved < pmm.total)
    (hpinned : ¬ pinned pmm.reserved) (hbelow : pmm.base + pmm.total * 4096 ≤ ramEnd) :
    FirstPage pinned (KernelMem.shape pmm) ((KernelMem.start pmm mem).step (.malloc 16)) 16 [] := by
  have hram : ramEnd = 0x80000000 := rfl
  have hclear : pmm.bitTest pmm.hint = false := by
    rw [hhint, ← Bool.not_eq_true, htracks.used _ hlt]
    simpa using hpinned
  have hpage := htracks.ok.allocPage_hint (hhint ▸ hlt) hclear
  rw [hhint] at hpage
  have hslab : (KernelMem.start pmm mem).heap.slabAlloc 16 =
      (({ pmm := pmm.took pmm.reserved 1, mem, slabNext := pmm.base + pmm.reserved * pmmPageSize
          slabEnd := (pmm.base + pmm.reserved * pmmPageSize + pmmPageSize) % 2 ^ 64 } : Kheap).carve
            16) := by
    simp only [KernelMem.start, Kheap.slabAlloc, hpage]
    rfl
  have hheap : ((KernelMem.start pmm mem).step (.malloc 16)).heap =
    ((KernelMem.start pmm mem).heap.slabAlloc 16).1 := rfl
  have hrun : Run pmm.bitmap false pmm.reserved 1 := fun i hi hi' => by
    obtain rfl : i = pmm.reserved := by omega
    rwa [hhint] at hclear
  refine ⟨?_, ?_, ?_, ?_, hbelow⟩
  · rw [hheap, hslab]
    exact htracks.took one_pos hlt hrun
  · rw [hheap, hslab]
    rfl
  · rw [hheap, hslab]
    simp only [carve, pmmPageSize, KernelMem.shape]
    omega
  · rw [hheap, hslab]
    simp only [carve, pmmPageSize, KernelMem.shape]
    omega

/-- The first page of the pool is below all others that can be had. With two of them taken there are
enough left. -/
theorem malloc (h : FirstPage pinned q m used runs) (htotal : q.reserved + 10000 ≤ q.total)
    (hpinned : ∀ i < q.reserved + 10000, ¬ pinned i)
    (hlarge : 256 < n) (hpages : pagesOf n ≤ 2560) (hused : used + 32 ≤ 4096)
    (i₁ i₂ : ℕ) (hruns : ∀ run ∈ runs, run = (i₁, 1) ∨ run = (i₂, 1)) :
    ∃ i, q.reserved < i ∧ (m.heap.malloc n).2 = q.base + i * 4096 ∧
      FirstPage pinned q (m.step (.malloc n)) (used + 32) ((i, pagesOf n) :: runs) := by
  have hn : n + 4110 < 2 ^ 64 := by
    unfold pagesOf at hpages
    omega
  -- Of three runs one has neither of the two pages.
  obtain ⟨j, hj, hj', hfree⟩ : ∃ j, q.reserved < j ∧ j + 2560 ≤ q.reserved + 10000 ∧
      ∀ i, j ≤ i → i < j + 2560 → i ≠ i₁ ∧ i ≠ i₂ := by
    by_contra hnot
    push Not at hnot
    obtain ⟨a, ha, ha', hanot⟩ := hnot (q.reserved + 1) (by omega) (by omega)
    obtain ⟨b, hb, hb', hbnot⟩ := hnot (q.reserved + 3000) (by omega) (by omega)
    obtain ⟨c, hc, hc', hcnot⟩ := hnot (q.reserved + 6000) (by omega) (by omega)
    omega
  obtain ⟨htracks, rfl, hnext, hend, hbelow⟩ := h
  have hram : ramEnd = 0x80000000 := rfl
  have hlt : m.heap.pmm.reserved + 1 ≤ m.heap.pmm.total := (htracks.inside _ mem_cons_self).2.2
  have hres := htracks.ok.reserved_pos (by omega)
  simp only [KernelMem.shape] at htracks hnext hend hbelow htotal hpinned hj hj' ⊢
  obtain ⟨pages, hmalloc, hcount⟩ := KernelMem.malloc_eq_mallocPages m.heap hlarge (by omega)
  obtain rfl := hcount (.inr hn)
  rcases htracks.ok.allocPages (pagesOf n) with ⟨i, hpos, hin, hclear, heq⟩ | ⟨-, hnone⟩
  · have hi : m.heap.pmm.reserved < i := by
      have hbit := hclear i le_rfl (by omega)
      rcases (htracks.ok.reserved_le_of_clear hbit).eq_or_lt with hsame | hlt
      · rw [← hsame, htracks.run_set mem_cons_self _ le_rfl (Nat.lt_succ_self _)] at hbit
        cases hbit
      · exact hlt
    have hslab : ({ m.heap with pmm := m.heap.pmm.took i (pagesOf n) } : Kheap).slabAlloc
      (alignUp largeHdrSize 16) =
        ({ m.heap with pmm := m.heap.pmm.took i (pagesOf n) } : Kheap).carve 32 := by
      rw [show alignUp largeHdrSize 16 = 32 by decide, Kheap.slabAlloc, if_neg]
      dsimp only
      omega
    have hresult : m.heap.malloc n = ({
      ({ m.heap with pmm := m.heap.pmm.took i (pagesOf n) } : Kheap).carve 32 |>.1 with
        largeList := { hdr := m.heap.slabNext, ptr := m.heap.pmm.base + i *
          pmmPageSize, nPages := pagesOf n } ::
          m.heap.largeList
        bytesAllocated := ((m.heap.bytesAllocated + 32) % 2 ^ 64 + pagesOf n * pmmPageSize) % 2 ^ 64 },
        m.heap.pmm.base + i * pmmPageSize) := by
      simp only [hmalloc, mallocPages, heq, hslab, carve, if_neg (show m.heap.slabNext ≠ 0 by omega)]
    have hheap : (m.step (.malloc n)).heap = (m.heap.malloc n).1 := rfl
    refine ⟨i, hi, by rw [hresult]; rfl, ?_, ?_, ?_, ?_, hbelow⟩
    · rw [hheap, hresult]
      exact (htracks.took hpos hin hclear).perm (List.Perm.swap ..)
    · rw [hheap, hresult]
      rfl
    · rw [hheap, hresult]
      simp only [carve]
      omega
    · rw [hheap, hresult]
      exact hend
  · exfalso
    refine hnone ?_ j (by omega) fun i hi hi' => ?_
    · unfold pagesOf
      omega
    · have hout := hfree i hi (by omega)
      change m.heap.pmm.bitTest i = false
      rw [← Bool.not_eq_true, htracks.used i (by omega)]
      rintro (hlow | hpin | ⟨run, hrun, hin⟩)
      · omega
      · exact hpinned i (by omega) hpin
      · unfold Pmm.InRun at hin
        rcases mem_cons.mp hrun with rfl | hrun
        · omega
        · rcases hruns run hrun with rfl | rfl <;> omega

end FirstPage

namespace MmuRun

variable {k : Image} {pinned : ℕ → Prop} {q : KernelMem.Shape} {x : MmuRun}

/-- Three requests, and where they are. -/
theorem create_eq_populate {slot : ℕ} (hslot : x.mmu.allocSpaceSlot = some slot) {l1 l2r raw : ℕ}
    {m1 m2 m3 : KernelMem} (hl1 : (x.mmu.kmem.heap.malloc 4096).2 = l1)
    (hm1 : x.mmu.kmem.step (.malloc 4096) = m1) (hl2r : (m1.heap.malloc 4096).2 = l2r)
    (hm2 : m1.step (.malloc 4096) = m2)
    (hraw : (m2.heap.malloc (userWindowSize + userBlockSize)).2 = raw) (hm3 : m2.step
      (.malloc (userWindowSize + userBlockSize)) = m3) (h1 : l1 ≠ 0) (h2 : l2r ≠ 0) (h3 : raw ≠ 0) :
    x.step k .createAddressSpace = { x with mmu := ({ x.mmu with kmem := m3 } : Mmu).populate k slot l1 l2r raw } := by
  subst hm1 hm2 hm3 hl1 hl2r hraw
  simp only [step, Mmu.mmuCreateAddressSpace, hslot, if_neg (not_or.mpr ⟨h1, h2⟩), if_neg h3]

/-- The block that a request has that wraps: from the next piece on it takes in everything. -/
theorem not_isolated_of_wrapped (h : Good k pinned q x) (hq : Placed k q) {i : ℕ} {s : AddressSpace}
    (hs : LiveAt x.mmu i s) (hnext : 0 < x.mmu.kmem.heap.slabNext)
    (hend : x.mmu.kmem.heap.slabNext ≤ x.mmu.kmem.heap.slabEnd)
    (hlt : x.mmu.kmem.heap.slabNext < 2 ^ 64)
    (hbelow : x.mmu.kmem.heap.slabNext ≤ s.userBackingRaw) :
    ¬ Isolated k (x.step k (.kernel (.malloc (2 ^ 64 - 1)))) := by
  intro hisolated
  obtain ⟨hspace, hpage, hlow, hbacking⟩ := h.space hq hs
  obtain ⟨d, hwalk, hel0⟩ := walk_window hspace hpage hlow hbacking
  have hp : (x.mmu.kmem.heap.malloc (2 ^ 64 - 1)).2 = x.mmu.kmem.heap.slabNext := by
    rw [KernelMem.malloc_eq_slabAlloc_zero _ (by norm_num) (by norm_num), Kheap.slabAlloc,
      if_neg (by omega)]
    rfl
  have hothers : (x.mmu.kmem.heap.slabNext, 2 ^ 64 - 1) ∈ (x.step k
      (.kernel (.malloc (2 ^ 64 - 1)))).others := by
    simp only [step, othersAfter, hp, if_neg hnext.ne']
    exact mem_cons_self
  refine hisolated.blocks i s hs s.userBacking ⟨userWindowVa, by decide, d, hwalk, hel0⟩ _ hothers
    ⟨?_, ?_⟩
  · exact hbelow.trans hspace.low
  · dsimp only
    omega

/-- With a page for pieces in front, an address space is made behind it. -/
theorem create_of_firstPage {used : ℕ} (h : FirstPage pinned q x.mmu.kmem used [])
    (hused : used + 96 ≤ 4096) (hslot : x.mmu.allocSpaceSlot = some 0)
    (htotal : q.reserved + 10000 ≤ q.total) (hpinned : ∀ i < q.reserved + 10000, ¬ pinned i) :
    ∃ s, LiveAt (x.step k .createAddressSpace).mmu 0 s ∧
      q.base + q.reserved * 4096 + 4096 ≤ s.userBackingRaw ∧
      (x.step k .createAddressSpace).mmu.kmem.heap.slabNext = q.base + q.reserved * 4096 + (used + 96) ∧
      (x.step k .createAddressSpace).mmu.kmem.heap.slabEnd = q.base + q.reserved * 4096 + 4096 := by
  have hone : pagesOf 4096 = 1 := rfl
  obtain ⟨i1, hi1, hl1, h1⟩ := h.malloc (n := 4096) htotal hpinned (by norm_num) (by decide)
    (by omega) 0 0 (by simp)
  rw [hone] at h1
  obtain ⟨i2, hi2, hl2, h2⟩ := h1.malloc (n := 4096) htotal hpinned (by norm_num) (by decide)
    (by omega) i1 0 (by simp)
  rw [hone] at h2
  obtain ⟨i3, hi3, hraw, h3⟩ := h2.malloc (n := userWindowSize + userBlockSize) htotal hpinned
    (by decide) (by decide) (by omega) i2 i1 (by simp)
  rw [create_eq_populate hslot hl1 rfl hl2 rfl hraw rfl (by omega) (by omega) (by omega)]
  generalize ((x.mmu.kmem.step (.malloc 4096)).step (.malloc 4096)).step
    (.malloc (userWindowSize + userBlockSize)) = m at h3 ⊢
  obtain ⟨hlt, -, -⟩ := findIdx?_eq_some_iff_getElem.mp hslot
  refine ⟨_, ⟨getElem?_set_self hlt, show q.base + i1 * 4096 ≠ 0 by omega⟩, ?_,
    (KernelMem.setMem_slabNext ..).trans h3.next_eq, (KernelMem.setMem_slabEnd ..).trans h3.end_eq⟩
  show _ ≤ q.base + i3 * 4096
  omega

variable (old : ℕ → BitVec 8)

/-- The page allocator after boot is as before the reservation, but for the bitmap and the count. -/
theorem bootPmm_pool :
    (bootPmm smallImage old).base = 0x40100000 ∧ (bootPmm smallImage old).total = 261888 ∧
      (bootPmm smallImage old).reserved = 8 ∧ (bootPmm smallImage old).hint = 8 := by
  obtain ⟨a, n, -, -, heq⟩ := Pmm.exists_stretch (initPmm_tracks smallImage old).ok.free_lt
    userWindowVa userWindowSize
  rw [bootPmm, heq]
  exact ⟨rfl, rfl, rfl, rfl⟩

theorem not_windowPage {i : ℕ} (hi : i < 32512) : ¬ windowPage smallImage old i := by
  obtain ⟨hva, -, -⟩ := window_eq
  rw [windowPage, Pmm.Overlaps, show (initPmm smallImage old).base = 0x40100000 from rfl, pmmPageSize]
  omega

/-- The shape of the pool. -/
def smallShape : KernelMem.Shape := { base := 0x40100000, total := 261888, reserved := 8 }

theorem bootPmm_shape : KernelMem.shape (bootPmm smallImage old) = smallShape := by
  obtain ⟨hbase, htotal, hres, -⟩ := bootPmm_pool old
  rw [KernelMem.shape, hbase, htotal, hres, smallShape]

theorem boot_firstPage (old mem : ℕ → BitVec 8) (tables : ℕ → ℕ → Desc) :
    FirstPage (fun i => False ∨ windowPage smallImage old i) smallShape
      (step smallImage (boot smallImage old mem tables) (.kernel (.malloc 16))).mmu.kmem 16 [] := by
  obtain ⟨hbase, htotal, hres, hhint⟩ := bootPmm_pool old
  have hram : ramEnd = 0x80000000 := rfl
  rw [← bootPmm_shape old]
  refine FirstPage.of_hint mem (bootPmm_tracks smallImage old) (hhint.trans hres.symm) (by omega) ?_
    (by omega)
  rw [false_or, hres]
  exact not_windowPage old (by norm_num)

/-- A request for nearly all addresses succeeds, and what user mode has is in it. -/
theorem malloc_takes_window :
    ¬ Isolated smallImage
      (runFrom (step smallImage) (boot smallImage (fun _ => 0#8) (fun _ => 0#8) fun _ _ => 0)
      [.kernel (.malloc 16), .createAddressSpace, .kernel (.malloc (2 ^ 64 - 1))]) := by
  have hplaced := placed_boot smallImage fun _ => 0#8
  have hgood := good_boot smallImage (fun _ => 0#8) (fun _ => 0#8) fun _ _ => 0
  rw [bootPmm_shape] at hplaced hgood
  have hgood := (hgood.step hplaced (a := .kernel (.malloc 16))
    ⟨by decide, .inl (by norm_num)⟩).create hplaced
  have hfirst := boot_firstPage (fun _ => 0#8) (fun _ => 0#8) fun _ _ => 0
  have hslot : (step smallImage (boot smallImage (fun _ => 0#8) (fun _ => 0#8) fun _ _ => 0)
      (.kernel (.malloc 16))).mmu.allocSpaceSlot = some 0 := rfl
  rw [runFrom_cons, runFrom_cons, runFrom_cons, runFrom_nil]
  generalize step smallImage (boot smallImage (fun _ => 0#8) (fun _ => 0#8) fun _ _ => 0)
    (.kernel (.malloc 16)) = x at hgood hfirst hslot ⊢
  obtain ⟨s, hs, hbacking, hnext, hend⟩ := create_of_firstPage (k := smallImage) hfirst
    (by norm_num) hslot (by simp only [smallShape]; norm_num) (fun i hi => by
      simp only [smallShape] at hi
      rw [false_or]
      exact not_windowPage _ (by omega))
  simp only [smallShape] at hbacking hnext hend
  exact not_isolated_of_wrapped hgood hplaced hs (by omega) (by omega) (by omega) (by omega)

end MmuRun

end Nonux.Core
