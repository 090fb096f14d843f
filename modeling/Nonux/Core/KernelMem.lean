import Nonux.Core.Kheap

/-!
# The memory of the kernel

The users of the kernel heap call `malloc`, `calloc` and `free`, and some take pages from the page
allocator below it. The blocks that are live are kept beside the heap, with the sizes that were
asked for.

## What is proved

`Good` is the invariant: small blocks and the headers of large ones are pieces of the heap's pages,
and a large block is a run of pages of its own. `Sound` is what is asked of a call. `sound_iff` says
in which runs every call does what it should: it is the sizes that matter, because one that cannot
be rounded up is rounded to 0.
-/

namespace Nonux.Core

open Nonux.Lib Nonux.Lib.BitArray List

/-- The heap; the blocks that are live, with the sizes that were asked for; and the pages that were
taken from the page allocator itself. -/
structure KernelMem where
  heap : Kheap
  live : List (ℕ × ℕ) := []
  pages : List (ℕ × ℕ) := []

/-- What the kernel does. -/
inductive KmemStep where
  | malloc (n : ℕ)
  | calloc (count size : ℕ)
  | free (p : ℕ)
  | allocPages (count : ℕ)
  | freePages (page count : ℕ)
  deriving DecidableEq, Repr

namespace KernelMem

open Kheap

/-- The kernel has got what the heap returned. -/
def got (x : KernelMem) (n : ℕ) (r : Kheap × ℕ) : KernelMem :=
  { x with heap := r.1, live := if r.2 = 0 then x.live else (r.2, n) :: x.live }

/-- The kernel has got what the page allocator returned. -/
def gotPages (x : KernelMem) (count : ℕ) : Pmm × Option ℕ → KernelMem
  | (pmm, none) => { x with heap := { x.heap with pmm } }
  | (pmm, some page) => { x with heap := { x.heap with pmm }, pages := (page, count) :: x.pages }

def step (x : KernelMem) : KmemStep → KernelMem
  | .malloc n => x.got n (x.heap.malloc n)
  | .calloc count size => x.got (count * size) (x.heap.calloc count size)
  | .free p => { x with heap := x.heap.free p, live := x.live.filter fun b => b.1 ≠ p }
  | .allocPages count => x.gotPages count (x.heap.pmm.pmmAllocPages count)
  | .freePages page count =>
    { x with
      heap := { x.heap with pmm := x.heap.pmm.pmmFreePages page count }
      pages := x.pages.erase (page, count) }

/-- Sizes have 64 bits, and what is freed is live. -/
def Matching (x : KernelMem) : KmemStep → Prop
  | .malloc n => n < 2 ^ 64
  | .calloc count size => count < 2 ^ 64 ∧ size < 2 ^ 64
  | .free p => ∃ b ∈ x.live, b.1 = p
  | .allocPages _ => True
  | .freePages page count => (page, count) ∈ x.pages

instance decidableMatching (x : KernelMem) : DecidablePred x.Matching
  | .malloc n => inferInstanceAs (Decidable (n < 2 ^ 64))
  | .calloc count size => inferInstanceAs (Decidable (count < 2 ^ 64 ∧ size < 2 ^ 64))
  | .free p => inferInstanceAs (Decidable (∃ b ∈ x.live, b.1 = p))
  | .allocPages _ => inferInstanceAs (Decidable True)
  | .freePages page count => inferInstanceAs (Decidable ((page, count) ∈ x.pages))

/-- Memory is written. -/
def setMem (x : KernelMem) (mem : ℕ → BitVec 8) : KernelMem := { x with heap := { x.heap with mem } }

@[simp] theorem setMem_live (x : KernelMem) (mem : ℕ → BitVec 8) : (x.setMem mem).live = x.live := rfl

@[simp] theorem setMem_slabNext (x : KernelMem) (mem : ℕ → BitVec 8) :
    (x.setMem mem).heap.slabNext = x.heap.slabNext := rfl

@[simp] theorem setMem_slabEnd (x : KernelMem) (mem : ℕ → BitVec 8) :
    (x.setMem mem).heap.slabEnd = x.heap.slabEnd := rfl

/-! ### What is asked of a call -/

/-- Page `i` is one of the pages that a block at `p` of `n` bytes takes, if it is large. -/
def Takes (base p n i : ℕ) : Prop := p ≤ base + i * 4096 ∧ base + i * 4096 < p + pagesOf n * 4096

/-- A block of `n` bytes at `p` is what a request should get. -/
structure Fresh (x : KernelMem) (h : Kheap) (p n : ℕ) : Prop where
  aligned : p % 16 = 0
  /-- All of its bytes are in pages of the pool, behind the bitmap, that are in use now. -/
  held : ∀ a, p ≤ a → a < p + n → ∃ i, x.heap.pmm.reserved ≤ i ∧ i < x.heap.pmm.total ∧
    x.heap.pmm.base + i * 4096 ≤ a ∧ a < x.heap.pmm.base + i * 4096 + 4096 ∧ h.pmm.bitTest i = true
  live : ∀ b ∈ x.live, Apart (p, n) b
  pages : ∀ run ∈ x.pages, Apart (p, n) (run.1, run.2 * 4096)
  headers : ∀ hdr ∈ h.largeList, Apart (p, n) (hdr.hdr, largeHdrSize)
  /-- The pages of a large block were free before. -/
  taken : 256 < n → ∀ i < x.heap.pmm.total, Takes x.heap.pmm.base p n i →
    x.heap.pmm.bitTest i = false ∧ h.pmm.bitTest i = true

/-- The pages of a large block are given back, and no others. -/
structure Returned (x : KernelMem) (p n : ℕ) : Prop where
  used : ∀ i < x.heap.pmm.total, Takes x.heap.pmm.base p n i → x.heap.pmm.bitTest i = true
  bits : ∀ i < x.heap.pmm.total, (x.heap.free p).pmm.bitTest i = true ↔
    x.heap.pmm.bitTest i = true ∧ ¬ Takes x.heap.pmm.base p n i
  counted : (x.heap.free p).pmm.free = x.heap.pmm.free + pagesOf n

/-- A call does what it should. -/
def Sound (x : KernelMem) : KmemStep → Prop
  | .malloc n => (x.heap.malloc n).2 ≠ 0 → Fresh x (x.heap.malloc n).1 (x.heap.malloc n).2 n
  | .calloc count size => (x.heap.calloc count size).2 ≠ 0 →
    Fresh x (x.heap.calloc count size).1 (x.heap.calloc count size).2 (count * size) ∧
      ∀ a, (x.heap.calloc count size).2 ≤ a → a < (x.heap.calloc count size).2 + count * size →
        (x.heap.calloc count size).1.mem a = 0
  | .free p => ∀ n, (p, n) ∈ x.live → 256 < n → Returned x p n
  | .allocPages _ | .freePages _ _ => True

/-- The size can be rounded up to a multiple of 16. If it cannot, the request fails where the heap
has no page yet, and where its page is the last one of memory and no other is free. -/
def SizeOk (x : KernelMem) (n : ℕ) : Prop :=
  n + 15 < 2 ^ 64 ∨ x.heap.slabNext = 0 ∨ x.heap.slabEnd < x.heap.slabNext ∧ x.heap.pmm.free = 0

instance decidableSizeOk (x : KernelMem) (n : ℕ) : Decidable (x.SizeOk n) :=
  inferInstanceAs (Decidable (_ ∨ _ ∨ _))

/-- The condition on a call. A product that is too large is seen by `calloc`. -/
def Sized (x : KernelMem) : KmemStep → Prop
  | .malloc n => x.SizeOk n
  | .calloc count size => 2 ^ 64 ≤ count * size ∨ x.SizeOk (count * size)
  | .free _ | .allocPages _ | .freePages _ _ => True

instance decidableSized (x : KernelMem) : DecidablePred x.Sized
  | .malloc n => inferInstanceAs (Decidable (x.SizeOk n))
  | .calloc count size => inferInstanceAs (Decidable (2 ^ 64 ≤ count * size ∨ x.SizeOk (count * size)))
  | .free _ | .allocPages _ | .freePages _ _ => inferInstanceAs (Decidable True)

/-! ### The invariant -/

/-- The pieces that are in use: the small blocks, and the headers of the large ones. -/
def pieces (x : KernelMem) : List (ℕ × ℕ) :=
  ((x.live.filter fun b => b.2 ≤ 256).map fun b => (b.1, (b.2 + 15) / 16 * 16)) ++
    x.heap.largeList.map fun hdr => (hdr.hdr, 32)

/-- The address of a run. -/
def runAddr (base : ℕ) (run : ℕ × ℕ) : ℕ × ℕ := (base + run.1 * pmmPageSize, run.2)

/-- What does not change of the page allocator. -/
structure Shape where
  base : ℕ
  total : ℕ
  reserved : ℕ

/-- The shape of a pool. -/
def shape (s : Pmm) : Shape := { base := s.base, total := s.total, reserved := s.reserved }

/-- The heap has the pages `slabs` for pieces and the runs `large` for large blocks, and `pages` are
the other runs. -/
structure Good (pinned : ℕ → Prop) (q : Shape) (x : KernelMem) (slabs : List ℕ)
    (large pages : List (ℕ × ℕ)) : Prop where
  slab : SlabOk pinned x.heap slabs x.pieces (large ++ pages)
  large_perm : (x.heap.largeList.map fun hdr => (hdr.ptr, hdr.nPages)).Perm
    (large.map (runAddr x.heap.pmm.base))
  pages_perm : x.pages.Perm (pages.map (runAddr x.heap.pmm.base))
  live_pos : ∀ b ∈ x.live, 0 < b.2
  live_large : ∀ b ∈ x.live, 256 < b.2 → (b.1, pagesOf b.2) ∈ x.heap.largeList.map
    fun hdr => (hdr.ptr, hdr.nPages)
  live_apart : x.live.Pairwise Apart
  shape_eq : shape x.heap.pmm = q

/-- The invariant, with some pages. -/
def Kept (pinned : ℕ → Prop) (q : Shape) (x : KernelMem) : Prop :=
  ∃ slabs large pages, Good pinned q x slabs large pages

variable {h : Kheap}

theorem shape_of_same {h' : Kheap} (hsame : SamePool h h') : shape h'.pmm = shape h.pmm := by
  rw [shape, shape, hsame.base_eq, hsame.total_eq, hsame.reserved_eq]

variable {pinned : ℕ → Prop} {q : Shape} {x : KernelMem} {slabs : List ℕ}
  {large pages : List (ℕ × ℕ)} {n p count : ℕ} {slabs' : List ℕ} {b : ℕ × ℕ}

/-- A small block is in a piece. -/
theorem piece_of_small (hb : b ∈ x.live) (hsmall : b.2 ≤ 256) : (b.1, (b.2 + 15) / 16 * 16) ∈ x.pieces :=
  mem_append_left _ (mem_map.mpr ⟨b, mem_filter.mpr ⟨hb, by simpa using hsmall⟩, rfl⟩)

/-- An address in a run of pages is in one of them. -/
theorem exists_page {base i m a : ℕ} (hlow : base + i * 4096 ≤ a)
    (hhigh : a < base + i * 4096 + m * 4096) :
    ∃ j, i ≤ j ∧ j < i + m ∧ base + j * 4096 ≤ a ∧ a < base + j * 4096 + 4096 := by
  obtain ⟨d, rfl⟩ := Nat.exists_eq_add_of_le hlow
  have hd : d / 4096 < m := by omega
  clear hlow hhigh
  exact ⟨i + d / 4096, by omega, by omega, by omega, by omega⟩

theorem malloc_eq_slabAlloc (h : Kheap) (hpos : 0 < n) (hsmall : n ≤ 256) :
    h.malloc n = h.slabAlloc ((n + 15) / 16 * 16) := by
  have hneed : alignUp n 16 = (n + 15) / 16 * 16 := need_eq (by omega)
  unfold Kheap.malloc
  simp only [if_neg hpos.ne', hneed, kheapSlabMax, if_pos (show (n + 15) / 16 * 16 ≤ 256 by omega)]

/-- `malloc` for a large request. A number of pages that is not right for the size is 0. -/
theorem malloc_eq_mallocPages (h : Kheap) (hlarge : 256 < n) (hn : n + 15 < 2 ^ 64) :
    ∃ pages, h.malloc n = h.mallocPages pages ∧ (0 < pages ∨ n + 4110 < 2 ^ 64 → pages = pagesOf n) := by
  have hneed : alignUp n 16 = (n + 15) / 16 * 16 := need_eq hn
  refine ⟨((n + 15) / 16 * 16 + pmmPageSize - 1) % 2 ^ 64 / pmmPageSize, ?_, fun hpos => ?_⟩
  · unfold Kheap.malloc
    simp only [if_neg (show n ≠ 0 by omega), hneed, kheapSlabMax,
      if_neg (show ¬ (n + 15) / 16 * 16 ≤ 256 by omega)]
  · unfold pagesOf
    simp only [pmmPageSize] at hpos ⊢
    omega

theorem malloc_eq_slabAlloc_zero (h : Kheap) (hn : n < 2 ^ 64) (hwrap : 2 ^ 64 ≤ n + 15) :
    h.malloc n = h.slabAlloc 0 := by
  unfold Kheap.malloc
  simp only [if_neg (show n ≠ 0 by omega), need_eq_zero hn hwrap, if_pos (Nat.zero_le _)]

/-- `calloc` looks at the product and is `malloc` otherwise. -/
theorem calloc_eq (h : Kheap) {size : ℕ} :
    h.calloc count size =
      if 2 ^ 64 ≤ count * size then (h, 0)
      else
        let r := h.malloc (count * size)
        if r.2 = 0 then (r.1, 0) else ({ r.1 with mem := memset r.1.mem r.2 (count * size) }, r.2) := by
  have hguard : count ≠ 0 ∧ (2 ^ 64 - 1) / count < size ↔ 2 ^ 64 ≤ count * size := by
    rcases Nat.eq_zero_or_pos count with rfl | hpos
    · simp
    · rw [Nat.div_lt_iff_lt_mul hpos, Nat.mul_comm size count]
      omega
  unfold Kheap.calloc
  simp only [hguard]
  by_cases hbig : 2 ^ 64 ≤ count * size
  · rw [if_pos hbig, if_pos hbig]
  · rw [if_neg hbig, if_neg hbig, Nat.mod_eq_of_lt (not_le.mp hbig)]

theorem largeFindAndUnlink_eq_none {l : List LargeHdr} (h : ∀ hdr ∈ l, hdr.ptr ≠ p) :
    largeFindAndUnlink p l = none := by
  induction l with
  | nil => rfl
  | cons hdr next ih =>
    obtain ⟨hne, hnext⟩ := forall_mem_cons.mp h
    rw [largeFindAndUnlink, if_neg hne, ih hnext, Option.map_none]

theorem exists_largeFindAndUnlink {l : List LargeHdr} (h : ∃ hdr ∈ l, hdr.ptr = p) :
    ∃ hit rest, largeFindAndUnlink p l = some (hit, rest) ∧ hit.ptr = p ∧ l.Perm (hit :: rest) := by
  induction l with
  | nil =>
    obtain ⟨_, hmem, -⟩ := h
    cases hmem
  | cons hdr next ih =>
    rw [largeFindAndUnlink]
    by_cases hp : hdr.ptr = p
    · rw [if_pos hp]
      exact ⟨hdr, next, rfl, hp, .refl _⟩
    · rw [if_neg hp]
      have hnext : ∃ hdr ∈ next, hdr.ptr = p := by simpa [hp] using h
      obtain ⟨hit, rest, hfind, hhit, hperm⟩ := ih hnext
      refine ⟨hit, hdr :: rest, by rw [hfind, Option.map_some], hhit, ?_⟩
      exact (hperm.cons hdr).trans (List.Perm.swap ..)

theorem runAddr_injective (base : ℕ) : Function.Injective (runAddr base) := by
  rintro ⟨i, n⟩ ⟨j, m⟩ heq
  simp only [runAddr, pmmPageSize, Prod.mk.injEq] at heq ⊢
  omega

section Good

variable (hgood : Good pinned q x slabs large pages)
include hgood

/-- A large block is a run. -/
theorem Good.run_of_large (hb : b ∈ x.live) (hlarge : 256 < b.2) :
    ∃ i, (i, pagesOf b.2) ∈ large ∧ b.1 = x.heap.pmm.base + i * pmmPageSize := by
  have hmem := hgood.large_perm.mem_iff.mp (hgood.live_large b hb hlarge)
  obtain ⟨⟨i, m⟩, hrun, heq⟩ := mem_map.mp hmem
  obtain ⟨haddr, rfl⟩ := Prod.mk.inj heq
  exact ⟨i, hrun, haddr.symm⟩

/-- What is apart from all pieces and from all runs is apart from what is live. -/
theorem Good.apart_of_live {c : ℕ × ℕ} (hsmall : ∀ b ∈ x.pieces, Apart c b)
    (hlarge : ∀ run ∈ large, Apart c (runBytes x.heap.pmm.base run)) :
    ∀ b ∈ x.live, Apart c b := fun b hb => by
  by_cases hsize : b.2 ≤ 256
  · have := hsmall _ (piece_of_small hb hsize)
    simp only [Apart] at this ⊢
    omega
  · obtain ⟨i, hrun, haddr⟩ := hgood.run_of_large hb (not_le.mp hsize)
    have := hlarge _ hrun
    simp only [Apart, runBytes, pagesOf, pmmPageSize] at this haddr ⊢
    omega

theorem Good.pages_apart {c : ℕ × ℕ}
    (hpages : ∀ run ∈ pages, Apart c (runBytes x.heap.pmm.base run)) :
    ∀ run ∈ x.pages, Apart c (run.1, run.2 * 4096) := fun run hrun => by
  obtain ⟨run', hrun', rfl⟩ := mem_map.mp (hgood.pages_perm.mem_iff.mp hrun)
  exact hpages run' hrun'

/-- The other variables of the heap do not matter. -/
theorem Good.congr (hpmm : h.pmm = x.heap.pmm)
    (hnext : h.slabNext = x.heap.slabNext) (hend : h.slabEnd = x.heap.slabEnd)
    (hlist : h.largeList = x.heap.largeList) :
    Good pinned q { x with heap := h } slabs large pages := by
  have hpieces : pieces { x with heap := h } = x.pieces := by rw [pieces, hlist]; rfl
  refine ⟨?_, ?_, ?_, hgood.live_pos, ?_, hgood.live_apart, (congrArg shape hpmm).trans hgood.shape_eq⟩
  · rw [hpieces]
    exact hgood.slab.congr hpmm hnext hend
  · dsimp only
    rw [hlist, hpmm]
    exact hgood.large_perm
  · dsimp only
    rw [hpmm]
    exact hgood.pages_perm
  · dsimp only
    rw [hlist]
    exact hgood.live_large

/-! ### Small requests -/

theorem Good.next_lt :
    x.heap.slabNext < 2 ^ 64 ∧ (x.heap.slabNext ≠ 0 → 4096 ≤ x.heap.slabNext) := by
  have hlt := hgood.slab.end_lt
  have haligned := hgood.slab.end_aligned
  rcases hgood.slab.room with hfull | ⟨i, hi, hroom⟩
  · omega
  · have hslab := hgood.slab.slab_lt hi
    have hlow := hroom.low
    have hhigh := hroom.high
    omega

/-- A piece for a small request is what it should be. -/
theorem Good.fresh_small {need : ℕ}
    (hok : SlabOk pinned h slabs' ((p, need) :: x.pieces) (large ++ pages)) (hsame : SamePool x.heap h)
    (hlist : h.largeList = x.heap.largeList) (hn : n ≤ need) (hsmall : n ≤ 256) : Fresh x h p n := by
  have hmem : (p, need) ∈ (p, need) :: x.pieces := mem_cons_self
  obtain ⟨hpieces, -⟩ := pairwise_cons.mp hok.apart
  have hruns : ∀ run ∈ large ++ pages, Apart (p, n) (runBytes x.heap.pmm.base run) := fun run hrun =>
    (hsame.base_eq ▸ hok.small_apart hmem hrun).mono hn
  refine ⟨(hok.inside _ hmem).1, fun a hlow hhigh => ?_, ?_, ?_, fun hdr hhdr => ?_,
    fun hlarge => by omega⟩
  · obtain ⟨i, hres, hlt, ⟨hin, hin'⟩, hset⟩ := hok.small_held hmem
    rw [hsame.base_eq] at hin hin'
    rw [hsame.reserved_eq] at hres
    rw [hsame.total_eq] at hlt
    dsimp only at hin hin'
    exact ⟨i, hres, hlt, by omega, by omega, hset⟩
  · exact hgood.apart_of_live (fun b hb => (hpieces b hb).mono hn) fun run hrun => hruns run
      (mem_append_left _ hrun)
  · exact hgood.pages_apart fun run hrun => hruns run (mem_append_right _ hrun)
  · have hpiece : (hdr.hdr, 32) ∈ x.pieces := mem_append_right _ (mem_map.mpr ⟨hdr, hlist ▸ hhdr, rfl⟩)
    exact ((hpieces _ hpiece).mono hn).symm.mono (by decide) |>.symm

/-- The kernel has got a piece. -/
theorem Good.got_small
    (hok : SlabOk pinned h slabs' ((p, (n + 15) / 16 * 16) :: x.pieces) (large ++ pages))
    (hsame : SamePool x.heap h) (hlist : h.largeList = x.heap.largeList) (hp : p ≠ 0) (hpos : 0 < n)
    (hsmall : n ≤ 256) : Good pinned q (x.got n (h, p)) slabs' large pages := by
  have hpieces : (x.got n (h, p)).pieces = (p, (n + 15) / 16 * 16) :: x.pieces := by
    simp [pieces, got, hp, hsmall, hlist]
  refine ⟨?_, ?_, ?_, ?_, ?_, ?_, (shape_of_same hsame).trans hgood.shape_eq⟩
  · rw [hpieces]
    exact hok
  · simpa only [got, hlist, hsame.base_eq] using hgood.large_perm
  · simpa only [got, hsame.base_eq] using hgood.pages_perm
  · simpa [got, hp, hpos] using hgood.live_pos
  · simpa [got, hp, hlist, not_lt.mpr hsmall] using hgood.live_large
  · rw [got, if_neg hp]
    have hfresh := hgood.fresh_small hok hsame hlist (show n ≤ (n + 15) / 16 * 16 by omega) hsmall
    exact pairwise_cons.mpr ⟨hfresh.live, hgood.live_apart⟩

theorem Good.malloc_small (hpos : 0 < n) (hsmall : n ≤ 256) :
    Kept pinned q (x.got n (x.heap.malloc n)) ∧
      ((x.heap.malloc n).2 ≠ 0 → Fresh x (x.heap.malloc n).1 (x.heap.malloc n).2 n) := by
  rw [malloc_eq_slabAlloc _ hpos hsmall]
  rcases hgood.slab.slabAlloc ((n + 15) / 16 * 16) (by omega) (by omega) (by omega) with
    hnull | ⟨h, p, slabs', heq, hp, hok, hsame, hlist, -, -⟩
  · rw [hnull]
    exact ⟨⟨_, _, _, hgood⟩, fun hne => absurd rfl hne⟩
  · rw [heq]
    exact ⟨⟨_, _, _, hgood.got_small hok hsame hlist hp hpos hsmall⟩, fun _ =>
      hgood.fresh_small hok hsame hlist (by omega) hsmall⟩

/-! ### Large requests -/

/-- Pages for a large request are what it should get. The header has been carved by then. -/
theorem Good.fresh_large {i hdr : ℕ} {list : List LargeHdr}
    (hok : SlabOk pinned h slabs' ((hdr, 32) :: x.pieces) ((i, pagesOf n) :: (large ++ pages)))
    (hsame : SamePool x.heap h)
    (hlist : list = ⟨hdr, x.heap.pmm.base + i * pmmPageSize, pagesOf n⟩ :: x.heap.largeList)
    (hclear : ∀ j, Pmm.InRun (i, pagesOf n) j → x.heap.pmm.bitTest j = false) (bytes : ℕ) :
    Fresh x { h with largeList := list, bytesAllocated := bytes }
      (x.heap.pmm.base + i * pmmPageSize) n := by
  have hmem : (i, pagesOf n) ∈ (i, pagesOf n) :: (large ++ pages) := mem_cons_self
  obtain ⟨-, hres, hfit⟩ := hok.tracks.inside _ (mem_append_right _ hmem)
  have hset := hok.tracks.run_set (mem_append_right _ hmem)
  have hn : n ≤ pagesOf n * 4096 := by unfold pagesOf; omega
  have haligned := hgood.slab.tracks.ok.aligned
  rw [hsame.reserved_eq] at hres
  rw [hsame.total_eq] at hfit
  dsimp only at hres hfit
  have hpieces : ∀ b ∈ (hdr, 32) :: x.pieces, Apart (x.heap.pmm.base + i * pmmPageSize, n) b :=
    fun b hb =>
    (hsame.base_eq ▸ hok.small_apart hb hmem).symm.mono hn
  obtain ⟨hother, -⟩ := pairwise_cons.mp hok.runs_apart
  have hruns : ∀ run ∈ large ++ pages, Apart (x.heap.pmm.base + i * pmmPageSize, n)
      (runBytes x.heap.pmm.base run) :=
    fun run hrun => (hsame.base_eq ▸ hother run hrun).mono hn
  refine ⟨?_, fun a hlow hhigh => ?_, ?_, ?_, fun hdr' hhdr => ?_, fun _ j hj htakes => ?_⟩
  · simp only [pmmPageSize] at haligned ⊢
    omega
  · obtain ⟨j, hij, hj, hin⟩ := exists_page (m := pagesOf n) hlow
      (by simp only [pmmPageSize] at hhigh ⊢; omega)
    exact ⟨j, hres.trans hij, hj.trans_le hfit, hin.1, hin.2, hset j hij hj⟩
  · exact hgood.apart_of_live (fun b hb => hpieces b (mem_cons_of_mem _ hb)) fun run hrun =>
      hruns run (mem_append_left _ hrun)
  · exact hgood.pages_apart fun run hrun => hruns run (mem_append_right _ hrun)
  · have hpiece : (hdr'.hdr, 32) ∈ (hdr, 32) :: x.pieces := by
      dsimp only at hhdr
      rw [hlist] at hhdr
      rcases mem_cons.mp hhdr with rfl | hhdr
      · exact mem_cons_self
      · exact mem_cons_of_mem _ (mem_append_right _ (mem_map.mpr ⟨hdr', hhdr, rfl⟩))
    exact ((hpieces _ hpiece).symm.mono (by decide)).symm
  · simp only [Takes, pmmPageSize] at htakes
    have hin : Pmm.InRun (i, pagesOf n) j := by
      unfold Pmm.InRun
      dsimp only
      omega
    exact ⟨hclear j hin, hset j hin.1 hin.2⟩

/-- The kernel has got pages. -/
theorem Good.got_large {i hdr : ℕ}
    (hok : SlabOk pinned h slabs' ((hdr, 32) :: x.pieces) ((i, pagesOf n) :: (large ++ pages)))
    (hsame : SamePool x.heap h)
    (hclear : ∀ j, Pmm.InRun (i, pagesOf n) j → x.heap.pmm.bitTest j = false)
    (hlarge : 256 < n) (bytes : ℕ) :
    Good pinned q
      (x.got n ({ h with
        largeList := ⟨hdr, x.heap.pmm.base + i * pmmPageSize, pagesOf n⟩ :: x.heap.largeList
        bytesAllocated := bytes }, x.heap.pmm.base + i * pmmPageSize))
      slabs' ((i, pagesOf n) :: large) pages := by
  have hp : x.heap.pmm.base + i * pmmPageSize ≠ 0 := hsame.base_eq ▸ hok.run_pos mem_cons_self
  rw [got, if_neg hp]
  refine ⟨(hok.subperm ?_).congr rfl rfl rfl, ?_, ?_, ?_, ?_, ?_, (shape_of_same hsame).trans
    hgood.shape_eq⟩
  · refine List.Perm.subperm ?_
    simp only [pieces, filter_cons, decide_eq_true_eq, if_neg (not_le.mpr hlarge), map_cons]
    exact perm_middle
  · simp only [hsame.base_eq, map_cons]
    exact hgood.large_perm.cons (runAddr x.heap.pmm.base (i, pagesOf n))
  · simpa only [hsame.base_eq] using hgood.pages_perm
  · exact forall_mem_cons.mpr ⟨by dsimp only; omega, hgood.live_pos⟩
  · simp only [map_cons]
    refine forall_mem_cons.mpr ⟨fun _ => mem_cons_self, fun b hb hbl => ?_⟩
    exact mem_cons_of_mem _ (hgood.live_large b hb hbl)
  · exact pairwise_cons.mpr ⟨(hgood.fresh_large hok hsame rfl hclear bytes).live, hgood.live_apart⟩

theorem Good.malloc_large (hlarge : 256 < n) (hn : n + 15 < 2 ^ 64) :
    Kept pinned q (x.got n (x.heap.malloc n)) ∧
      ((x.heap.malloc n).2 ≠ 0 → Fresh x (x.heap.malloc n).1 (x.heap.malloc n).2 n) := by
  obtain ⟨count, hmalloc, hcount⟩ := malloc_eq_mallocPages x.heap hlarge hn
  rw [hmalloc, mallocPages, show alignUp largeHdrSize 16 = 32 by decide]
  rcases hgood.slab.allocPages count with ⟨i, hok, hclear, heq⟩ | heq
  · obtain rfl := hcount (.inl (hok.tracks.inside _ (mem_append_right _ mem_cons_self)).1)
    simp only [heq]
    rcases hok.slabAlloc 32 (by decide) (by decide) (by decide) with
      hnull | ⟨h, hdr, slabs', hcarved, hne, hok', hsame, hlist, -, -⟩
    · -- There is no page for the header, and the pages go back.
      obtain ⟨hfree, hback⟩ := hok.freePages (i := i) (n := pagesOf n) mem_cons_self
      have hfree : (x.heap.pmm.took i (pagesOf n)).pmmFreePages (x.heap.pmm.base + i * pmmPageSize)
        (pagesOf n) =
          (x.heap.pmm.took i (pagesOf n)).gave i (pagesOf n) := hfree
      rw [erase_cons_head] at hback
      simp only [hnull, if_true, hfree]
      exact ⟨⟨_, _, _, { hgood with slab := hback }⟩, fun hne => absurd rfl hne⟩
    · have hsame' : SamePool x.heap h := ⟨hsame.base_eq, hsame.total_eq, hsame.reserved_eq⟩
      have hlist : h.largeList = x.heap.largeList := hlist
      simp only [hcarved, if_neg hne, hlist]
      exact ⟨⟨_, _, _, hgood.got_large hok' hsame' hclear hlarge _⟩, fun _ =>
        hgood.fresh_large hok' hsame' rfl hclear _⟩
  · simp only [heq]
    exact ⟨⟨_, _, _, hgood⟩, fun hne => absurd rfl hne⟩

/-! ### Requests that cannot be rounded up -/

/-- When no page is free there is none to be had. -/
theorem Good.allocPage_none_iff :
    x.heap.pmm.pmmAllocPage = (x.heap.pmm, none) ↔ x.heap.pmm.free = 0 := by
  have hzero : x.heap.pmm.free = 0 ↔ ∀ i < x.heap.pmm.total, x.heap.pmm.bitTest i = true := by
    rw [hgood.slab.tracks.ok.counted, clearCount, Finset.card_eq_zero, Finset.eq_empty_iff_forall_notMem]
    simp only [mem_clearSet, not_and, Bool.not_eq_false]
    rfl
  rw [hzero]
  rcases hgood.slab.tracks.ok.allocPage with ⟨i, hi, hclear, heq⟩ | ⟨heq, hall⟩
  · refine iff_of_false (by simp [heq]) fun hall => ?_
    rw [hall i hi] at hclear
    cases hclear
  · exact iff_of_true heq hall

theorem Good.malloc_null (hn : n < 2 ^ 64) (hwrap : 2 ^ 64 ≤ n + 15)
    (hsize : x.SizeOk n) : Good pinned q (x.got n (x.heap.malloc n)) slabs large pages ∧
    (x.heap.malloc n).2 = 0 := by
  have hnext := hgood.next_lt.1
  rw [malloc_eq_slabAlloc_zero _ hn hwrap, Kheap.slabAlloc, Nat.add_zero, Nat.mod_eq_of_lt hnext]
  rcases hsize with hround | hzero | ⟨hend, hfree⟩
  · omega
  · rw [if_neg (by omega), carve, hzero]
    exact ⟨hgood.congr rfl hzero.symm rfl rfl, rfl⟩
  · simp only [if_pos hend, hgood.allocPage_none_iff.mpr hfree]
    exact ⟨hgood, trivial⟩

/-- A request that is rounded to 0 gets what is next in the current page, or a new page. -/
theorem Good.malloc_wrapped (hn : n < 2 ^ 64) (hsize : ¬ x.SizeOk n) :
    4096 ≤ (x.heap.malloc n).2 := by
  obtain ⟨hnext, hlow⟩ := hgood.next_lt
  simp only [SizeOk, not_or, not_and, not_lt] at hsize
  obtain ⟨hwrap, hne, hfree⟩ := hsize
  rw [malloc_eq_slabAlloc_zero _ hn hwrap, Kheap.slabAlloc, Nat.add_zero, Nat.mod_eq_of_lt hnext]
  split_ifs with hend
  · rcases hgood.slab.tracks.allocPage with ⟨i, htracks, heq⟩ | heq
    · have hslab := (hgood.slab.newPage htracks).1.slab_lt mem_cons_self
      simp only [heq, carve, pmmPageSize]
      omega
    · exact absurd (hgood.allocPage_none_iff.mp heq) (hfree hend)
  · exact hlow hne

/-- There are not so many bytes. -/
theorem Good.not_fresh (hwrap : 2 ^ 64 ≤ n + 15) (hp : 4096 ≤ p) :
    ¬ Fresh x h p n := fun hfresh => by
  obtain ⟨i, -, hlt, -, hhigh, -⟩ := hfresh.held (p + n - 1) (by omega) (by omega)
  have hfits := hgood.slab.tracks.ok.fits
  simp only [pmmPageSize] at hfits
  omega

/-! ### `malloc` and `calloc` -/

/-- **`malloc`** -/
theorem Good.malloc (hn : n < 2 ^ 64) (hsize : x.SizeOk n) :
    Kept pinned q (x.got n (x.heap.malloc n)) ∧
      ((x.heap.malloc n).2 ≠ 0 → Fresh x (x.heap.malloc n).1 (x.heap.malloc n).2 n) := by
  by_cases hround : n + 15 < 2 ^ 64
  · rcases Nat.eq_zero_or_pos n with rfl | hpos
    · exact ⟨⟨_, _, _, hgood⟩, fun hne => absurd rfl hne⟩
    · rcases Nat.lt_or_ge 256 n with hlarge | hsmall
      · exact hgood.malloc_large hlarge hround
      · exact hgood.malloc_small hpos hsmall
  · obtain ⟨hgood', hnull⟩ := hgood.malloc_null hn (not_lt.mp hround) hsize
    exact ⟨⟨_, _, _, hgood'⟩, fun hne => absurd hnull hne⟩

theorem Good.malloc_iff (hn : n < 2 ^ 64) :
    ((x.heap.malloc n).2 ≠ 0 → Fresh x (x.heap.malloc n).1 (x.heap.malloc n).2 n) ↔ x.SizeOk n := by
  refine ⟨fun hsound => ?_, fun hsize => (hgood.malloc hn hsize).2⟩
  by_contra hsize
  have hp := hgood.malloc_wrapped hn hsize
  exact hgood.not_fresh (not_lt.mp fun hround => hsize (.inl hround)) hp (hsound (by omega))

/-- **`calloc`** -/
theorem Good.calloc {size : ℕ} (hsize : x.Sized (.calloc count size)) :
    Kept pinned q (x.got (count * size) (x.heap.calloc count size)) ∧ x.Sound (.calloc count size) := by
  simp only [Sound]
  rw [calloc_eq]
  by_cases hbig : 2 ^ 64 ≤ count * size
  · rw [if_pos hbig]
    exact ⟨⟨_, _, _, hgood⟩, fun hne => absurd rfl hne⟩
  · rw [if_neg hbig]
    obtain ⟨⟨slabs', large', pages', hgood'⟩, hfresh⟩ := hgood.malloc (not_le.mp hbig)
      (hsize.resolve_left hbig)
    generalize x.heap.malloc (count * size) = r at hgood' hfresh
    dsimp only
    split_ifs with hnull
    · refine ⟨⟨slabs', large', pages', ?_⟩, fun hne => absurd rfl hne⟩
      rwa [← hnull]
    · refine ⟨⟨slabs', large', pages', ?_⟩, fun _ => ⟨?_, fun a hlow hhigh => memset_of_mem hlow hhigh⟩⟩
      · simp only [got, if_neg hnull] at hgood' ⊢
        exact hgood'.congr rfl rfl rfl rfl
      · obtain ⟨haligned, hheld, hlive, hpages, hheaders, htaken⟩ := hfresh hnull
        exact ⟨haligned, hheld, hlive, hpages, hheaders, htaken⟩

theorem Good.calloc_iff {size : ℕ} :
    x.Sound (.calloc count size) ↔ x.Sized (.calloc count size) := by
  refine ⟨fun hsound => ?_, fun hsize => (hgood.calloc hsize).2⟩
  by_contra hsize
  obtain ⟨hbig, hsize⟩ := not_or.mp hsize
  have hp := hgood.malloc_wrapped (not_le.mp hbig) hsize
  simp only [Sound] at hsound
  rw [calloc_eq, if_neg hbig] at hsound
  simp only [if_neg (show (x.heap.malloc (count * size)).2 ≠ 0 by omega)] at hsound
  exact hgood.not_fresh (not_lt.mp fun hround => hsize (.inl hround)) hp (hsound (by omega)).1

/-! ### `free` -/

/-- Freeing a small block does nothing: no large block has its address. -/
theorem Good.free_small (hb : (p, n) ∈ x.live) (hsmall : n ≤ 256) :
    x.heap.free p = x.heap := by
  have hpiece := piece_of_small hb hsmall
  have hpos := hgood.live_pos _ hb
  have hnone : largeFindAndUnlink p x.heap.largeList = none := largeFindAndUnlink_eq_none
      fun hdr hhdr hptr => by
    have hmem : (hdr.ptr, hdr.nPages) ∈ x.heap.largeList.map fun hdr => (hdr.ptr, hdr.nPages) :=
      mem_map.mpr ⟨hdr, hhdr, rfl⟩
    obtain ⟨⟨i, m⟩, hrun, heq⟩ := mem_map.mp (hgood.large_perm.mem_iff.mp hmem)
    obtain ⟨haddr, -⟩ := Prod.mk.inj heq
    have hruns : (i, m) ∈ large ++ pages := mem_append_left _ hrun
    have hapart := hgood.slab.small_apart hpiece hruns
    have hm := (hgood.slab.tracks.inside _ (mem_append_right _ hruns)).1
    simp only [Apart, runBytes, pmmPageSize] at hapart haddr
    dsimp only at hpos hm
    omega
  unfold Kheap.free
  rw [hnone]
  exact ite_self _

/-- Freeing a large block gives its run back. -/
theorem Good.free_large (hb : (p, n) ∈ x.live) (hlarge : 256 < n) :
    ∃ i hit rest, (i, pagesOf n) ∈ large ∧ p = x.heap.pmm.base + i * pmmPageSize ∧ hit.ptr = p ∧
      hit.nPages = pagesOf n ∧ x.heap.largeList.Perm (hit :: rest) ∧
      x.heap.free p = { x.heap with
        largeList := rest
        bytesAllocated := wsub x.heap.bytesAllocated (pagesOf n * pmmPageSize % 2 ^ 64)
        pmm := x.heap.pmm.gave i (pagesOf n) } := by
  obtain ⟨i, hrun, haddr⟩ := hgood.run_of_large hb hlarge
  dsimp only at hrun haddr
  obtain ⟨hdr, hhdr, hpair⟩ := mem_map.mp (hgood.live_large _ hb hlarge)
  obtain ⟨hit, rest, hfind, hhit, hperm⟩ := exists_largeFindAndUnlink ⟨hdr, hhdr, (Prod.mk.inj hpair).1⟩
  -- The header that is found is for a run with the same first page, and so for this one.
  have hcount : hit.nPages = pagesOf n := by
    have hmem : (hit.ptr, hit.nPages) ∈ x.heap.largeList.map fun hdr => (hdr.ptr, hdr.nPages) :=
      mem_map.mpr ⟨hit, hperm.mem_iff.mpr mem_cons_self, rfl⟩
    obtain ⟨⟨j, m⟩, hrun', heq⟩ := mem_map.mp (hgood.large_perm.mem_iff.mp hmem)
    obtain ⟨haddr', rfl⟩ := Prod.mk.inj heq
    obtain rfl : j = i := by
      rw [hhit, haddr] at haddr'
      simp only [pmmPageSize] at haddr'
      omega
    exact hgood.slab.run_eq (mem_append_left _ hrun') (mem_append_left _ hrun)
  have hpos : p ≠ 0 := haddr ▸ hgood.slab.run_pos (mem_append_left _ hrun)
  refine ⟨i, hit, rest, hrun, haddr, hhit, hcount, hperm, ?_⟩
  unfold Kheap.free
  simp only [if_neg hpos, hfind, hhit, hcount]
  rw [haddr, (hgood.slab.freePages (mem_append_left _ hrun)).1]

theorem Good.returned (hb : (p, n) ∈ x.live) (hlarge : 256 < n) : Returned x p n := by
  obtain ⟨i, hit, rest, hrun, haddr, -, -, -, hfree⟩ := hgood.free_large hb hlarge
  have hset := hgood.slab.tracks.run_set (mem_append_right _ (mem_append_left _ hrun))
  have htakes : ∀ j, Takes x.heap.pmm.base p n j ↔ i ≤ j ∧ j < i + pagesOf n := fun j => by
    rw [Takes, haddr]
    simp only [pmmPageSize]
    omega
  refine ⟨fun j _ hj => hset j ((htakes j).mp hj).1 ((htakes j).mp hj).2, fun j _ => ?_, ?_⟩
  · rw [hfree, htakes]
    change bitAt (clearRange x.heap.pmm.bitmap i (pagesOf n)) j = true ↔ _
    rw [bitAt_clearRange (by norm_num), Bool.and_eq_true, Bool.not_eq_true', decide_eq_false_iff_not]
    rfl
  · rw [hfree]
    rfl

/-- **`free`** -/
theorem Good.free (hok : x.Matching (.free p)) : Kept pinned q (x.step (.free p)) := by
  obtain ⟨⟨p, n⟩, hb, rfl⟩ := hok
  have hpos : ∀ b ∈ x.live.filter fun b => b.1 ≠ p, 0 < b.2 :=
    fun b hb => hgood.live_pos b (mem_filter.mp hb).1
  have hsublist : (x.live.filter fun b => b.1 ≠ p).Sublist x.live := filter_sublist
  have hapart : (x.live.filter fun b => b.1 ≠ p).Pairwise Apart := hgood.live_apart.sublist hsublist
  rcases Nat.lt_or_ge 256 n with hlarge | hsmall
  · obtain ⟨i, hit, rest, hrun, haddr, hhit, hcount, hperm, hfree⟩ := hgood.free_large hb hlarge
    have hback := (hgood.slab.freePages (mem_append_left pages hrun)).2
    rw [erase_append_left _ hrun] at hback
    refine ⟨slabs, large.erase (i, pagesOf n), pages, ?_⟩
    simp only [step, hfree]
    refine ⟨(hback.subperm ?_).congr rfl rfl rfl, ?_, hgood.pages_perm, hpos, fun b hb' hbl => ?_,
      hapart, hgood.shape_eq⟩
    · refine ((hsublist.filter _).map _).subperm.append ?_
      exact ((sublist_cons_self hit rest).map _).subperm.trans (hperm.symm.map _).subperm
    · have hcons := (hperm.map fun hdr => (hdr.ptr, hdr.nPages)).symm.trans
        (hgood.large_perm.trans ((perm_cons_erase hrun).map _))
      rw [map_cons, map_cons, hhit, hcount, haddr] at hcons
      exact hcons.cons_inv
    · obtain ⟨hb', hne⟩ := mem_filter.mp hb'
      have hmem := (hperm.map fun hdr => (hdr.ptr, hdr.nPages)).mem_iff.mp (hgood.live_large b hb' hbl)
      rw [map_cons, mem_cons] at hmem
      refine hmem.resolve_left fun heq => ?_
      have : b.1 = p := (Prod.mk.inj heq).1.trans hhit
      simp [this] at hne
  · refine ⟨slabs, large, pages, ?_⟩
    simp only [step, hgood.free_small hb hsmall]
    refine ⟨hgood.slab.subperm ?_, hgood.large_perm, hgood.pages_perm, hpos, fun b hb' hbl => ?_,
      hapart, hgood.shape_eq⟩
    · exact (((hsublist.filter _).map _).append_right _).subperm
    · exact hgood.live_large b (mem_filter.mp hb').1 hbl

/-! ### Pages -/

theorem Good.allocPages (count : ℕ) : Kept pinned q (x.step (.allocPages count)) := by
  rcases hgood.slab.allocPages count with ⟨i, hok, -, heq⟩ | heq
  · refine ⟨slabs, large, (i, count) :: pages, ?_⟩
    simp only [step, heq, gotPages]
    refine ⟨{ hok with
      tracks := hok.tracks.perm (perm_middle.symm.append_left _)
      room := hok.room.imp_right fun ⟨j, hj, hroom⟩ => ⟨j, hj, { hroom with }⟩ }, hgood.large_perm,
        ?_, hgood.live_pos,
      hgood.live_large, hgood.live_apart, hgood.shape_eq⟩
    exact hgood.pages_perm.cons _
  · simp only [step, heq, gotPages]
    exact ⟨_, _, _, hgood⟩

theorem Good.freePages {page : ℕ} (hok : x.Matching (.freePages page count)) :
    Kept pinned q (x.step (.freePages page count)) := by
  obtain ⟨⟨i, n⟩, hrun, heq⟩ := mem_map.mp (hgood.pages_perm.mem_iff.mp hok)
  obtain ⟨rfl, rfl⟩ := Prod.mk.inj heq
  obtain ⟨hfree, hback⟩ := hgood.slab.freePages (mem_append_right large hrun)
  refine ⟨slabs, large, pages.erase (i, n), ?_⟩
  simp only [step, hfree]
  refine ⟨{ hback with
    tracks := hback.tracks.perm ?_
    room := hback.room.imp_right fun ⟨j, hj, hroom⟩ => ⟨j, hj, { hroom with }⟩ }, hgood.large_perm,
      ?_, hgood.live_pos,
    hgood.live_large, hgood.live_apart, hgood.shape_eq⟩
  · refine List.Perm.append_left _ ?_
    have hmem : (i, n) ∈ large ++ pages := mem_append_right large hrun
    exact ((perm_cons_erase hmem).symm.trans
      (((perm_cons_erase hrun).append_left _).trans perm_middle)).cons_inv
  · refine (hgood.pages_perm.erase _).trans ?_
    rw [map_erase (runAddr_injective _)]
    exact .refl _

end Good

/-! ### Runs -/

theorem Kept.step (h : Kept pinned q x) {a : KmemStep} (hok : x.Matching a) (hsize : x.Sized a) :
    Kept pinned q (x.step a) := by
  obtain ⟨slabs, large, pages, hgood⟩ := h
  cases a with
  | malloc n => exact (hgood.malloc hok hsize).1
  | calloc count size => exact (hgood.calloc hsize).1
  | free p => exact hgood.free hok
  | allocPages count => exact hgood.allocPages count
  | freePages page count => exact hgood.freePages hok

/-- **One call**: it does what it should just on this condition. -/
theorem Kept.sound_iff_sized (h : Kept pinned q x) {a : KmemStep} (hok : x.Matching a) :
    x.Sound a ↔ x.Sized a := by
  obtain ⟨slabs, large, pages, hgood⟩ := h
  cases a with
  | malloc n => exact hgood.malloc_iff hok
  | calloc count size => exact hgood.calloc_iff
  | free p => exact iff_of_true (fun n hb hlarge => hgood.returned hb hlarge) trivial
  | allocPages count => exact Iff.rfl
  | freePages page count => exact Iff.rfl

theorem Kept.setMem (h : Kept pinned q x) (mem : ℕ → BitVec 8) : Kept pinned q (x.setMem mem) := by
  obtain ⟨slabs, large, pages, hgood⟩ := h
  exact ⟨slabs, large, pages, hgood.congr rfl rfl rfl rfl⟩

/-- Blocks that are live are apart. -/
theorem Kept.live_apart (h : Kept pinned q x) : x.live.Pairwise Apart := by
  obtain ⟨slabs, large, pages, hgood⟩ := h
  exact hgood.live_apart

/-- A live block is in the pool, behind the bitmap. -/
theorem Kept.live_inside (h : Kept pinned q x) (hb : b ∈ x.live) :
    0 < b.2 ∧ q.base + 4096 ≤ b.1 ∧ b.1 + b.2 ≤ q.base + q.total * 4096 := by
  obtain ⟨slabs, large, pages, hgood⟩ := h
  have hpos := hgood.live_pos b hb
  have hbase : x.heap.pmm.base = q.base := congrArg Shape.base hgood.shape_eq
  have htotal : x.heap.pmm.total = q.total := congrArg Shape.total hgood.shape_eq
  rw [← hbase, ← htotal]
  refine ⟨hpos, ?_⟩
  by_cases hsize : b.2 ≤ 256
  · obtain ⟨-, i, hi, hlow, hhigh⟩ := hgood.slab.inside _ (piece_of_small hb hsize)
    obtain ⟨hipos, -, hlt, -⟩ := hgood.slab.slab_lt hi
    dsimp only at hlow hhigh
    omega
  · obtain ⟨i, hrun, haddr⟩ := hgood.run_of_large hb (not_le.mp hsize)
    obtain ⟨hpages, hres, hfit⟩ := hgood.slab.tracks.inside _
      (mem_append_right _ (mem_append_left _ hrun))
    have hreserved := hgood.slab.tracks.ok.reserved_pos
    simp only [pagesOf, pmmPageSize] at hpages hfit haddr
    dsimp only at hres
    omega

/-- A large block begins with a page. -/
theorem Kept.large_aligned (h : Kept pinned q x) (hb : b ∈ x.live) (hlarge : 256 < b.2) :
    b.1 % 4096 = 0 := by
  obtain ⟨slabs, large, pages, hgood⟩ := h
  obtain ⟨i, -, haddr⟩ := hgood.run_of_large hb hlarge
  have haligned := hgood.slab.tracks.ok.aligned
  simp only [pmmPageSize] at haddr haligned
  omega

/-- A live block is not in pages that were taken. -/
theorem Kept.pages_apart (h : Kept pinned q x) {run : ℕ × ℕ} (hb : b ∈ x.live) (hrun : run ∈ x.pages) :
    Apart b (run.1, run.2 * 4096) := by
  obtain ⟨slabs, large, pages, hgood⟩ := h
  refine hgood.pages_apart (c := b) (fun run hrun => ?_) run hrun
  by_cases hsize : b.2 ≤ 256
  · exact (hgood.slab.small_apart (piece_of_small hb hsize) (mem_append_right _ hrun)).mono (by omega)
  · obtain ⟨i, hlarge, haddr⟩ := hgood.run_of_large hb (not_le.mp hsize)
    have hcross := (pairwise_append.mp hgood.slab.runs_apart).2.2 _ hlarge run hrun
    simp only [Apart, runBytes, pagesOf, pmmPageSize] at hcross haddr ⊢
    omega

/-- A request of a size that can be rounded up. -/
theorem Kept.malloc (h : Kept pinned q x) (hn : 0 < n) (hround : n + 15 < 2 ^ 64) :
    Kept pinned q (x.step (.malloc n)) ∧
      (x.step (.malloc n)).live = if (x.heap.malloc n).2 = 0 then x.live else ((x.heap.malloc n).2,
        n) :: x.live :=
  ⟨h.step (a := .malloc n) (by change n < 2 ^ 64; omega) (.inl hround), rfl⟩

/-- Nothing has been asked for. -/
def start (pmm : Pmm) (mem : ℕ → BitVec 8) : KernelMem := { heap := { pmm, mem } }

theorem kept_start {pmm : Pmm} (mem : ℕ → BitVec 8) (htracks : pmm.Tracks pinned []) :
    Kept pinned (shape pmm) (start pmm mem) :=
  ⟨[], [], [], ⟨htracks, by norm_num [start], rfl, .inl rfl, by simp [start, pieces], by simp [start, pieces]⟩, .refl _, .refl _,
    by simp [start], by simp [start], by simp [start], rfl⟩

/-- **The kernel heap.** In a run of calls, each call of `malloc`, `calloc` and `free` does what it
should just if the sizes meet the condition: what is not NULL is aligned, has as many bytes as were
asked for, which are zero if `calloc` was, and is apart from all else that is live; and to free a
large block gives back the pages that were taken for it. -/
theorem sound_iff (old mem : ℕ → BitVec 8) (r : Region) (steps : List KmemStep)
    (hok : RunOk step Matching (start (Pmm.pmmInit old r.base r.size) mem) steps) :
    RunOk step Sound (start (Pmm.pmmInit old r.base r.size) mem) steps ↔
      RunOk step Sized (start (Pmm.pmmInit old r.base r.size) mem) steps :=
  runOk_iff_of_inv (Kept (fun _ => False) _) (fun _ _ hmatch h => h.sound_iff_sized hmatch)
    (fun _ _ hmatch hsize h => h.step hmatch hsize) hok (kept_start mem (PmmClients.tracks_init old r))

/-- The heap over four pages. -/
def fourPageHeap : KernelMem :=
  start (Pmm.pmmInit (fun _ => 0#8) PmmClients.fourPages.base PmmClients.fourPages.size) fun _ => 255#8

/-- A small block, a large one and one that is cleared; the large one is given back. -/
def threeBlocks : List KmemStep := [.malloc 100, .malloc 5000, .calloc 3 7, .free 12288]

theorem sound_three_blocks :
    (runFrom step fourPageHeap threeBlocks).live = [(8336, 21), (8192, 100)] ∧
    RunOk step Sound fourPageHeap threeBlocks :=
  ⟨by decide +kernel,
    (sound_iff (fun _ => 0#8) (fun _ => 255#8) PmmClients.fourPages threeBlocks
      (by decide +kernel)).mpr (by decide +kernel)⟩

/-- Once the heap has a page, a request for `2 ^ 64 - 1` bytes is given none at all, and the next
request is given the same address. -/
theorem malloc_wraps :
    let x := fourPageHeap.step (.malloc 16)
    (x.heap.malloc (2 ^ 64 - 1)).2 = 8208 ∧ ((x.step (.malloc (2 ^ 64 - 1))).heap.malloc 16).2 = 8208 ∧
      ¬ RunOk step Sound fourPageHeap [.malloc 16, .malloc (2 ^ 64 - 1)] := by
  refine ⟨by decide +kernel, by decide +kernel, fun hsound => ?_⟩
  have hstart : Kept (fun _ => False) _ fourPageHeap :=
    kept_start _ (PmmClients.tracks_init _ PmmClients.fourPages)
  have hkept := hstart.step (a := .malloc 16) (by decide) (by decide +kernel)
  have hsized := (hkept.sound_iff_sized (by decide)).mp hsound.2.1
  exact absurd hsized (by decide +kernel)

end KernelMem

end Nonux.Core
