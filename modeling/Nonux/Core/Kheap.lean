import Nonux.Core.Pmm

/-!
# The kernel heap (`kheap.c`)

Requests of at most 256 bytes are carved from a page of the page allocator, and a new page is taken
when the rest of the old one is too small. Larger requests get pages of their own, and a header,
carved like a small request, says how many. Freeing a small block does nothing, and freeing a large
one gives its pages back.

The size of a request is rounded up to a multiple of 16 first, and nothing is said about sizes for
which there is none in 64 bits. They are rounded to 0, which is small.

## What is proved

`SlabOk` is the invariant of what is carved: the pieces lie in pages of the heap, apart from each
other, from the room that is left, and from the pages that anybody else has. Small requests keep it
(`SlabOk.slabAlloc`), and so do pages that are taken and given back (`SlabOk.allocPages`,
`SlabOk.freePages`).
-/

namespace Nonux.Core

open Nonux.Lib Nonux.Lib.BitArray List

/-! ### The heap -/

/-- `KHEAP_SLAB_MAX` -/
def kheapSlabMax : ℕ := 256

/-- `align_up`, for a power of two. -/
def alignUp (n a : ℕ) : ℕ := ((n + a - 1) % 2 ^ 64) &&& (2 ^ 64 - a)

/-- `memset` with 0. -/
def memset (mem : ℕ → BitVec 8) (p n : ℕ) : ℕ → BitVec 8 :=
  fun a => if p ≤ a ∧ a < p + n then 0#8 else mem a

theorem memset_of_mem {mem : ℕ → BitVec 8} {p n a : ℕ} (hlow : p ≤ a) (hhigh : a < p + n) :
    memset mem p n a = 0#8 :=
  if_pos ⟨hlow, hhigh⟩

/-- `struct large_hdr`, with its own address. -/
structure LargeHdr where
  hdr : ℕ
  ptr : ℕ
  nPages : ℕ
  deriving DecidableEq, Repr

/-- The variables of the heap, the page allocator below it, and memory. -/
structure Kheap where
  pmm : Pmm
  mem : ℕ → BitVec 8
  slabNext : ℕ := 0
  slabEnd : ℕ := 0
  bytesAllocated : ℕ := 0
  largeList : List LargeHdr := []

namespace Kheap

/-- The end of `slab_alloc`. -/
def carve (h : Kheap) (need : ℕ) : Kheap × ℕ :=
  ({ h with
      slabNext := (h.slabNext + need) % 2 ^ 64
      bytesAllocated := (h.bytesAllocated + need) % 2 ^ 64 }, h.slabNext)

/-- `slab_alloc`; 0 is NULL. -/
def slabAlloc (h : Kheap) (need : ℕ) : Kheap × ℕ :=
  if h.slabEnd < (h.slabNext + need) % 2 ^ 64 then
    match h.pmm.pmmAllocPage with
    | (pmm, none) => ({ h with pmm }, 0)
    | (pmm, some p) => ({ h with pmm, slabNext := p, slabEnd := (p + pmmPageSize) %
        2 ^ 64 } : Kheap).carve need
  else h.carve need

/-- `large_find_and_unlink` -/
def largeFindAndUnlink (p : ℕ) : List LargeHdr → Option (LargeHdr × List LargeHdr)
  | [] => none
  | hdr :: next =>
    if hdr.ptr = p then some (hdr, next) else (largeFindAndUnlink p next).map fun hit =>
      (hit.1, hdr :: hit.2)

/-- `sizeof (struct large_hdr)` -/
def largeHdrSize : ℕ := 24

/-- The large path of `malloc`, from the number of pages on. -/
def mallocPages (h : Kheap) (pages : ℕ) : Kheap × ℕ :=
  match h.pmm.pmmAllocPages pages with
  | (pmm, none) => ({ h with pmm }, 0)
  | (pmm, some region) =>
    match ({ h with pmm } : Kheap).slabAlloc (alignUp largeHdrSize 16) with
    | (h, hdr) =>
      if hdr = 0 then ({ h with pmm := h.pmm.pmmFreePages region pages }, 0)
      else
        ({ h with
            largeList := { hdr, ptr := region, nPages := pages } :: h.largeList
            bytesAllocated := (h.bytesAllocated + pages * pmmPageSize) % 2 ^ 64 }, region)

/-- `malloc` -/
def malloc (h : Kheap) (n : ℕ) : Kheap × ℕ :=
  if n = 0 then (h, 0)
  else
    let need := alignUp n 16
    if need ≤ kheapSlabMax then h.slabAlloc need
    else h.mallocPages ((need + pmmPageSize - 1) % 2 ^ 64 / pmmPageSize)

/-- `calloc` -/
def calloc (h : Kheap) (count size : ℕ) : Kheap × ℕ :=
  if count ≠ 0 ∧ (2 ^ 64 - 1) / count < size then (h, 0)
  else
    let bytes := count * size % 2 ^ 64
    match h.malloc bytes with
    | (h, p) => if p = 0 then (h, 0) else ({ h with mem := memset h.mem p bytes }, p)

/-- `free` -/
def free (h : Kheap) (p : ℕ) : Kheap :=
  if p = 0 then h
  else
    match largeFindAndUnlink p h.largeList with
    | none => h
    | some (hit, largeList) =>
      { h with
        largeList
        bytesAllocated := wsub h.bytesAllocated (hit.nPages * pmmPageSize % 2 ^ 64)
        pmm := h.pmm.pmmFreePages hit.ptr hit.nPages }

/-! ### Sizes -/

theorem alignUp_sixteen (n : ℕ) : alignUp n 16 = (n + 15) % 2 ^ 64 / 16 * 16 :=
  and_mask_eq (k := 4) (Nat.mod_lt _ (Nat.two_pow_pos 64)) (by norm_num)

/-- How many pages a large request needs. -/
def pagesOf (n : ℕ) : ℕ := (n + 4095) / 4096

/-- A request that can be rounded up. -/
theorem need_eq {n : ℕ} (hn : n + 15 < 2 ^ 64) : alignUp n 16 = (n + 15) / 16 * 16 := by
  rw [alignUp_sixteen, Nat.mod_eq_of_lt hn]

/-- One that cannot. -/
theorem need_eq_zero {n : ℕ} (hlt : n < 2 ^ 64) (hn : 2 ^ 64 ≤ n + 15) : alignUp n 16 = 0 := by
  rw [alignUp_sixteen]
  omega

/-! ### What is carved -/

/-- Two blocks, given by address and length, lie behind one another. -/
def Apart (b c : ℕ × ℕ) : Prop := b.1 + b.2 ≤ c.1 ∨ c.1 + c.2 ≤ b.1

/-- A block lies in page `i` of a pool. -/
def InPage (base i : ℕ) (b : ℕ × ℕ) : Prop := base + i * 4096 ≤ b.1 ∧ b.1 + b.2 ≤ base + i * 4096 + 4096

/-- Page `i` is the current one, and what is left of it is not in any piece. -/
structure Room (h : Kheap) (small : List (ℕ × ℕ)) (i : ℕ) : Prop where
  low : h.pmm.base + i * 4096 ≤ h.slabNext
  high : h.slabNext < h.pmm.base + i * 4096 + 4096
  end_eq : h.slabEnd = (h.pmm.base + i * 4096 + 4096) % 2 ^ 64
  aligned : h.slabNext % 16 = 0
  apart : ∀ b ∈ small, b.1 + b.2 ≤ h.slabNext ∨ h.pmm.base + i * 4096 + 4096 ≤ b.1

/-- The heap has the pages `slabs` for small requests, and the pieces `small` are in use; `runs` are
all other pages that somebody has. -/
structure SlabOk (pinned : ℕ → Prop) (h : Kheap) (slabs : List ℕ) (small runs : List (ℕ × ℕ)) :
    Prop where
  tracks : h.pmm.Tracks pinned (slabs.map (fun i => (i, 1)) ++ runs)
  end_lt : h.slabEnd < 2 ^ 64
  end_aligned : h.slabEnd % 4096 = 0
  /-- The current page is used up, or there is none yet; or it has room. -/
  room : h.slabNext = h.slabEnd ∨ ∃ i ∈ slabs, Room h small i
  inside : ∀ b ∈ small, b.1 % 16 = 0 ∧ ∃ i ∈ slabs, InPage h.pmm.base i b
  apart : small.Pairwise Apart

variable {pinned : ℕ → Prop} {h : Kheap} {slabs : List ℕ} {small runs : List (ℕ × ℕ)} {need i n p : ℕ}

/-- What the heap has of the page allocator, apart from the bitmap. -/
structure SamePool (h h' : Kheap) : Prop where
  base_eq : h'.pmm.base = h.pmm.base
  total_eq : h'.pmm.total = h.pmm.total
  reserved_eq : h'.pmm.reserved = h.pmm.reserved

theorem Apart.symm {b c : ℕ × ℕ} (h : Apart b c) : Apart c b := Or.symm h

/-- A part of a block. -/
theorem Apart.mono {p n m : ℕ} {c : ℕ × ℕ} (h : Apart (p, n) c) (hle : m ≤ n) : Apart (p, m) c := by
  simp only [Apart] at h ⊢
  omega

section

variable (hok : SlabOk pinned h slabs small runs)
include hok

/-- Fewer pieces, in any order. -/
theorem SlabOk.subperm {small' : List (ℕ × ℕ)} (hsub : small'.Subperm small) :
    SlabOk pinned h slabs small' runs where
  tracks := hok.tracks
  end_lt := hok.end_lt
  end_aligned := hok.end_aligned
  room := hok.room.imp_right fun ⟨i, hi, hroom⟩ =>
    ⟨i, hi, { hroom with apart := fun b hb => hroom.apart b (hsub.subset hb) }⟩
  inside b hb := hok.inside b (hsub.subset hb)
  apart := by
    obtain ⟨l, hperm, hl⟩ := hsub
    exact (hperm.pairwise_iff Apart.symm).mp (hok.apart.sublist hl)

/-- Only these three variables matter. -/
theorem SlabOk.congr {h' : Kheap} (hpmm : h'.pmm = h.pmm)
    (hnext : h'.slabNext = h.slabNext) (hend : h'.slabEnd = h.slabEnd) :
    SlabOk pinned h' slabs small runs := by
  obtain ⟨pmm, mem, next, slabEnd, bytes, large⟩ := h'
  dsimp only at hpmm hnext hend
  subst hpmm hnext hend
  exact { hok with room := hok.room.imp_right fun ⟨j, hj, hroom⟩ => ⟨j, hj, { hroom with }⟩ }

/-- The pages of the heap are in the pool, behind the bitmap. -/
theorem SlabOk.slab_lt (hi : i ∈ slabs) :
    0 < i ∧ h.pmm.reserved ≤ i ∧ i < h.pmm.total ∧ h.pmm.base + i * 4096 + 4096 ≤ 2 ^ 64 := by
  obtain ⟨-, hres, hfit⟩ := hok.tracks.inside (i, 1) (mem_append_left _ (mem_map_of_mem hi))
  have hpos := hok.tracks.ok.reserved_pos (by omega)
  have hfits := hok.tracks.ok.fits
  simp only [pmmPageSize] at hfits
  dsimp only at hres hfit
  omega

/-- A piece is cut off the room. -/
theorem SlabOk.carve (hi : i ∈ slabs) (hroom : Room h small i)
    (haligned : need % 16 = 0) (hfit : h.slabNext + need ≤ h.pmm.base + i * 4096 + 4096) :
    SlabOk pinned (h.carve need).1 slabs ((h.slabNext, need) :: small) runs where
  tracks := hok.tracks
  end_lt := hok.end_lt
  end_aligned := hok.end_aligned
  room := by
    have hlow := hroom.low
    have hend := hroom.end_eq
    have hpage := (hok.slab_lt hi).2.2.2
    rcases hfit.eq_or_lt with hfull | hlt
    · exact .inl (by rw [Kheap.carve, hfull, hend])
    · have hnext : (h.slabNext + need) % 2 ^ 64 = h.slabNext + need := Nat.mod_eq_of_lt (by omega)
      refine .inr ⟨i, hi, ?_, ?_, hend, ?_, fun b hb => ?_⟩
      · change _ ≤ (h.slabNext + need) % 2 ^ 64
        rw [hnext]
        exact hlow.trans (Nat.le_add_right ..)
      · change (h.slabNext + need) % 2 ^ 64 < _
        rwa [hnext]
      · change (h.slabNext + need) % 2 ^ 64 % 16 = 0
        have := hroom.aligned
        omega
      · change b.1 + b.2 ≤ (h.slabNext + need) % 2 ^ 64 ∨ _
        rw [hnext]
        rcases mem_cons.mp hb with rfl | hb
        · exact .inl le_rfl
        · exact (hroom.apart b hb).imp_left fun hle => hle.trans (Nat.le_add_right ..)
  inside := forall_mem_cons.mpr ⟨⟨hroom.aligned, i, hi, hroom.low, hfit⟩, hok.inside⟩
  apart := pairwise_cons.mpr ⟨fun b hb => (hroom.apart b hb).symm.imp_left hfit.trans, hok.apart⟩

/-- A new page is all room. -/
theorem SlabOk.newPage
    (htracks : (h.pmm.took i 1).Tracks pinned ((i, 1) :: (slabs.map (fun i => (i, 1)) ++ runs))) :
    let h' : Kheap := { h with
      pmm := h.pmm.took i 1
      slabNext := h.pmm.base + i * pmmPageSize
      slabEnd := (h.pmm.base + i * pmmPageSize + pmmPageSize) % 2 ^ 64 }
    SlabOk pinned h' (i :: slabs) small runs ∧ Room h' small i := by
  have haligned := hok.tracks.ok.aligned
  obtain ⟨hother, -⟩ := pairwise_cons.mp htracks.apart
  have hroom : Room { h with
      pmm := h.pmm.took i 1
      slabNext := h.pmm.base + i * pmmPageSize
      slabEnd := (h.pmm.base + i * pmmPageSize + pmmPageSize) % 2 ^ 64 } small i := by
    refine ⟨le_rfl, Nat.lt_add_of_pos_right (by decide), rfl, ?_, fun b hb => ?_⟩
    · simp only [pmmPageSize] at haligned ⊢
      omega
    · -- The pieces are in other pages.
      obtain ⟨-, j, hj, hlow, hhigh⟩ := hok.inside b hb
      have hne := hother (j, 1) (mem_append_left _ (mem_map_of_mem hj)) i
      simp only [Pmm.InRun, le_refl, true_and, Nat.lt_succ_self, forall_const, not_and, not_lt] at hne
      change b.1 + b.2 ≤ h.pmm.base + i * 4096 ∨ h.pmm.base + i * 4096 + 4096 ≤ b.1
      omega
  refine ⟨⟨htracks, Nat.mod_lt _ (by norm_num), ?_, .inr ⟨i, mem_cons_self, hroom⟩, fun b hb => ?_,
    hok.apart⟩, hroom⟩
  · simp only [pmmPageSize] at haligned ⊢
    omega
  · obtain ⟨hb16, j, hj, hin⟩ := hok.inside b hb
    exact ⟨hb16, j, mem_cons_of_mem _ hj, hin⟩

/-- **A small request**: there is no page for it, or there is a new piece. -/
theorem SlabOk.slabAlloc (need : ℕ) (hpos : 0 < need) (haligned : need % 16 = 0)
    (hmax : need ≤ 256) :
    h.slabAlloc need = (h, 0) ∨
      ∃ h' p slabs', h.slabAlloc need = (h', p) ∧ p ≠ 0 ∧
      SlabOk pinned h' slabs' ((p, need) :: small) runs ∧
        SamePool h h' ∧ h'.largeList = h.largeList ∧ h'.mem = h.mem ∧
        ∀ j < h.pmm.total, h.pmm.bitTest j = true → h'.pmm.bitTest j = true := by
  have hlt := hok.end_lt
  have hpage := hok.end_aligned
  unfold Kheap.slabAlloc
  split_ifs with hfull
  · rcases hok.tracks.allocPage with ⟨i, htracks, heq⟩ | heq
    · obtain ⟨hnew, hroom⟩ := hok.newPage htracks
      have hslab := hnew.slab_lt mem_cons_self
      simp only [heq]
      refine .inr ⟨_, _, i :: slabs, rfl, ?_, hnew.carve mem_cons_self hroom haligned ?_,
        ⟨rfl, rfl, rfl⟩, rfl, rfl, fun j _ hj => ?_⟩
      · change h.pmm.base + i * pmmPageSize ≠ 0
        simp only [pmmPageSize]
        omega
      · change h.pmm.base + i * pmmPageSize + need ≤ h.pmm.base + i * 4096 + 4096
        simp only [pmmPageSize]
        omega
      · change bitAt (setRange h.pmm.bitmap i 1) j = true
        rw [bitAt_setRange (by norm_num), show bitAt h.pmm.bitmap j = true from hj, Bool.true_or]
    · simp only [heq]
      exact .inl trivial
  · rcases hok.room with hnone | ⟨i, hi, hroom⟩
    · -- A page that is used up has no room.
      rw [hnone] at hfull
      omega
    · have hslab := hok.slab_lt hi
      have hlow := hroom.low
      have hhigh := hroom.high
      have hend := hroom.end_eq
      refine .inr ⟨_, _, slabs, rfl,
        by omega, hok.carve hi hroom haligned ?_, ⟨rfl, rfl, rfl⟩, rfl, rfl, fun j _ hj => hj⟩
      -- The end of the last page of memory is 0, and then only a piece that fits exactly does.
      omega

/-- Pages are taken by somebody. -/
theorem SlabOk.allocPages (count : ℕ) :
    (∃ i, SlabOk pinned { h with pmm := h.pmm.took i count } slabs small ((i, count) :: runs) ∧
        (∀ j, Pmm.InRun (i, count) j → h.pmm.bitTest j = false) ∧
        h.pmm.pmmAllocPages count = (h.pmm.took i count, some (h.pmm.base + i * pmmPageSize))) ∨
      h.pmm.pmmAllocPages count = (h.pmm, none) := by
  rcases hok.tracks.allocPages count with ⟨i, htracks, heq⟩ | heq
  · exact .inl ⟨i, { hok with
      tracks := htracks.perm perm_middle.symm
      room := hok.room.imp_right fun ⟨j, hj, hroom⟩ => ⟨j, hj, { hroom with }⟩ },
        fun _ => hok.tracks.clear htracks, heq⟩
  · exact .inr heq

/-- Pages are given back. -/
theorem SlabOk.freePages (hrun : (i, n) ∈ runs) :
    h.pmm.pmmFreePages (h.pmm.base + i * pmmPageSize) n = h.pmm.gave i n ∧
      SlabOk pinned { h with pmm := h.pmm.gave i n } slabs small (runs.erase (i, n)) := by
  have hmem : (i, n) ∈ slabs.map (fun i => (i, 1)) ++ runs := mem_append_right _ hrun
  refine ⟨hok.tracks.freePages hmem, { hok with
    tracks := (hok.tracks.gave hmem).perm ?_
    room := hok.room.imp_right fun ⟨j, hj, hroom⟩ => ⟨j, hj, { hroom with }⟩ }⟩
  have hcons : ((i, n) :: (slabs.map (fun i => (i, 1)) ++ runs).erase (i, n)).Perm
      ((i, n) :: (slabs.map (fun i => (i, 1)) ++ runs.erase (i, n))) :=
    (perm_cons_erase hmem).symm.trans (((perm_cons_erase hrun).append_left _).trans perm_middle)
  exact hcons.cons_inv

end

/-- The bytes of a run of pages. -/
def runBytes (base : ℕ) (run : ℕ × ℕ) : ℕ × ℕ := (base + run.1 * 4096, run.2 * 4096)

/-- Runs that have no page in common have no byte in common. -/
theorem apart_runBytes {run run' : ℕ × ℕ} (base : ℕ) (hpos : 0 < run.2) (hpos' : 0 < run'.2)
    (hapart : ∀ i, Pmm.InRun run i → ¬ Pmm.InRun run' i) :
    Apart (runBytes base run) (runBytes base run') := by
  have hnot := hapart (max run.1 run'.1)
  simp only [Pmm.InRun] at hnot
  simp only [Apart, runBytes]
  omega

section

variable (hok : SlabOk pinned h slabs small runs)
include hok

/-- Pieces are not in pages that others have. -/
theorem SlabOk.small_apart {b run : ℕ × ℕ} (hb : b ∈ small) (hrun : run ∈ runs) :
    Apart b (runBytes h.pmm.base run) := by
  obtain ⟨-, i, hi, hlow, hhigh⟩ := hok.inside b hb
  have hi' : (i, 1) ∈ slabs.map fun i => (i, 1) := mem_map_of_mem hi
  have hpos := (hok.tracks.inside run (mem_append_right _ hrun)).1
  have hruns := apart_runBytes h.pmm.base (show 0 < (i, 1).2 from Nat.one_pos) hpos
    ((pairwise_append.mp hok.tracks.apart).2.2 _ hi' run hrun)
  simp only [Apart, runBytes] at hruns ⊢
  omega

/-- Two who have pages have no byte in common. -/
theorem SlabOk.runs_apart :
    runs.Pairwise fun run run' => Apart (runBytes h.pmm.base run) (runBytes h.pmm.base run') :=
  (pairwise_append.mp hok.tracks.apart).2.1.imp_of_mem fun hrun hrun' hapart =>
    apart_runBytes _ (hok.tracks.inside _ (mem_append_right _ hrun)).1
      (hok.tracks.inside _ (mem_append_right _ hrun')).1 hapart

/-- A run is told by its first page. -/
theorem SlabOk.run_eq {m : ℕ} (hn : (i, n) ∈ runs) (hm : (i, m) ∈ runs) : n = m := by
  by_contra hne
  have : Std.Symm fun run run' => Apart (runBytes h.pmm.base run) (runBytes h.pmm.base run') :=
    ⟨fun _ _ => Apart.symm⟩
  have hapart := hok.runs_apart.forall hn hm (by simp [hne])
  have := (hok.tracks.inside _ (mem_append_right _ hn)).1
  have := (hok.tracks.inside _ (mem_append_right _ hm)).1
  simp only [Apart, runBytes] at hapart
  omega

/-- No run is at NULL. -/
theorem SlabOk.run_pos (hrun : (i, n) ∈ runs) : h.pmm.base + i * pmmPageSize ≠ 0 := by
  obtain ⟨hpos, hres, hfit⟩ := hok.tracks.inside _ (mem_append_right _ hrun)
  have := hok.tracks.ok.reserved_pos (by dsimp only at hpos hfit; omega)
  simp only [pmmPageSize]
  dsimp only at hres
  omega

/-- A piece is in a page of the pool that is set. -/
theorem SlabOk.small_held {b : ℕ × ℕ} (hb : b ∈ small) :
    ∃ i, h.pmm.reserved ≤ i ∧ i < h.pmm.total ∧ InPage h.pmm.base i b ∧ h.pmm.bitTest i = true := by
  obtain ⟨-, i, hi, hin⟩ := hok.inside b hb
  obtain ⟨-, hres, hlt, -⟩ := hok.slab_lt hi
  have hset := hok.tracks.run_set (i := i) (n := 1) (mem_append_left _ (mem_map_of_mem hi))
  exact ⟨i, hres, hlt, hin, hset i le_rfl (Nat.lt_succ_self i)⟩

end

end Kheap

end Nonux.Core
