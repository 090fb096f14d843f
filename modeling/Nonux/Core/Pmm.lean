import Nonux.Lib.BitArray
import Nonux.Lib.Loop

/-!
# The page allocator (`core/pmm/pmm.c`)

The allocator has one region of memory, in pages of 4 KiB, and a bitmap with one bit for each page,
which lies in the first pages of the region itself. A page is free if its bit is clear. Single pages
are looked for from a hint on, around the end of the pool; several pages in a row are looked for
from the front, and after a page that is taken the search goes on behind it.

## The model

`Pmm` has the variables of the file. The bitmap is an array of bytes that goes on behind its end, as
memory does, so that a store behind the end can be told. Numbers are of 64 bits.

## What is proved

* `Ok.allocPage`, `Ok.allocPages`: an allocation takes free pages and nothing else, or there are
  none of the kind (`took`), and `Ok.freePages_eq` is the way back (`gave`).
* `runs_ok`: what holds after any run of allocations and matching frees.
-/

namespace Nonux.Core

open Nonux.Lib Nonux.Lib.BitArray List

/-! ### Words of 64 bits -/

/-- `a - b`. -/
def wsub (a b : ℕ) : ℕ := (a + 2 ^ 64 - b) % 2 ^ 64

theorem wsub_eq {a b : ℕ} (hba : b ≤ a) (ha : a < 2 ^ 64) : wsub a b = a - b := by
  unfold wsub
  omega

/-- `PMM_PAGE_SIZE` -/
def pmmPageSize : ℕ := 4096

/-- `PMM_PAGE_SHIFT` -/
def pmmPageShift : ℕ := 12

/-- `x & ~(PMM_PAGE_SIZE - 1)` -/
def pageFloor (x : ℕ) : ℕ := x &&& (2 ^ 64 - pmmPageSize)

theorem pageFloor_eq {x : ℕ} (hx : x < 2 ^ 64) : pageFloor x = x / pmmPageSize * pmmPageSize :=
  and_mask_eq (k := 12) hx (by norm_num)

/-! ### The allocator -/

/-- The variables of the allocator. The byte behind the last one of the bitmap is the next byte of
memory. -/
structure Pmm where
  base : ℕ := 0
  bitmap : ℕ → BitVec 8 := fun _ => 0#8
  total : ℕ := 0
  reserved : ℕ := 0
  hint : ℕ := 0
  free : ℕ := 0

namespace Pmm

/-- `bit_test` -/
def bitTest (s : Pmm) (i : ℕ) : Bool := bitAt s.bitmap i

/-- `try_claim` -/
def tryClaim (s : Pmm) (i : ℕ) : Pmm × Bool := ({ s with bitmap := setBit s.bitmap i }, !s.bitTest i)

/-- `release` -/
def release (s : Pmm) (i : ℕ) : Pmm := { s with bitmap := clearBit s.bitmap i }

/-- `page_addr` -/
def pageAddr (s : Pmm) (i : ℕ) : ℕ := (s.base + i * pmmPageSize) % 2 ^ 64

/-- `index_of` -/
def indexOf (s : Pmm) (page : ℕ) : ℕ := wsub page s.base >>> pmmPageShift

/-- How many bytes the bitmap has. -/
def bitmapBytes (s : Pmm) : ℕ := (s.total + 7) / 8

/-- `pmm_init`, on memory that had some bytes where the bitmap is to be. -/
def pmmInit (old : ℕ → BitVec 8) (base size : ℕ) : Pmm :=
  let aligned := pageFloor ((base + pmmPageSize - 1) % 2 ^ 64)
  let adjust := wsub aligned base
  let size := if size < adjust then 0 else size - adjust
  let size := pageFloor size
  let total := size / pmmPageSize
  let bitmapBytes := (total + 7) / 8
  let bitmapPages := (bitmapBytes + pmmPageSize - 1) / pmmPageSize
  { base := aligned, total
    bitmap := setRange (fun k => if k < bitmapBytes then 0#8 else old k) 0 bitmapPages
    reserved := bitmapPages, hint := bitmapPages, free := wsub total bitmapPages }

/-- The page that `pmm_alloc_page` looks at in a turn. -/
def turnPage (s : Pmm) (start turn : ℕ) : ℕ :=
  if s.total ≤ start + turn then start + turn - s.total else start + turn

/-- The loop of `pmm_alloc_page`, with so many turns left. -/
def allocPageLoop (start : ℕ) : ℕ → ℕ → Pmm → Pmm × Option ℕ
  | 0, _, s => (s, none)
  | left + 1, turn, s =>
    let i := s.turnPage start turn
    if i < s.reserved then allocPageLoop start left (turn + 1) s
    else if s.bitTest i then allocPageLoop start left (turn + 1) s
    else
      match s.tryClaim i with
      | (s, true) => ({ s with hint := i + 1, free := wsub s.free 1 }, some (s.pageAddr i))
      | (s, false) => allocPageLoop start left (turn + 1) s

/-- `pmm_alloc_page` -/
def pmmAllocPage (s : Pmm) : Pmm × Option ℕ :=
  let start := if s.total ≤ s.hint then s.reserved else s.hint
  allocPageLoop start s.total 0 s

/-- `while (run < count && !bit_test(i + run)) run++` -/
def runLength (s : Pmm) (i : ℕ) : ℕ → ℕ
  | 0 => 0
  | n + 1 => if s.bitTest i then 0 else s.runLength (i + 1) n + 1

/-- The loop that claims the pages of a run, up to the first that is taken: how many were
claimed. -/
def claimLoop (s : Pmm) (i : ℕ) : ℕ → Pmm × ℕ
  | 0 => (s, 0)
  | n + 1 =>
    match s.tryClaim i with
    | (s, true) => ((s.claimLoop (i + 1) n).1, (s.claimLoop (i + 1) n).2 + 1)
    | (s, false) => (s, 0)

/-- Release `n` pages in a row. -/
def releaseLoop (s : Pmm) (i : ℕ) : ℕ → Pmm
  | 0 => s
  | n + 1 => (s.release i).releaseLoop (i + 1) n

/-- The outer loop of `pmm_alloc_pages`. Every turn moves `i` on, so that there are no more than
`total + 1`. -/
def allocPagesLoop (count : ℕ) : ℕ → ℕ → Pmm → Pmm × Option ℕ
  | 0, _, s => (s, none)
  | turns + 1, i, s =>
    if i + count ≤ s.total then
      if s.runLength i count < count then allocPagesLoop count turns (i + s.runLength i count + 1) s
      else
        match s.claimLoop i count with
        | (s, claimed) =>
          if claimed = count then ({ s with hint := i + count, free := wsub s.free count },
            some (s.pageAddr i))
          else allocPagesLoop count turns (i + claimed + 1) (s.releaseLoop i claimed)
    else (s, none)

/-- `pmm_alloc_pages` -/
def pmmAllocPages (s : Pmm) (count : ℕ) : Pmm × Option ℕ :=
  if count = 0 then (s, none)
  else if count = 1 then s.pmmAllocPage
  else if wsub s.total s.reserved < count then (s, none)
  else allocPagesLoop count (s.total + 1) s.reserved s

/-- `pmm_free_pages` -/
def pmmFreePages (s : Pmm) (page count : ℕ) : Pmm :=
  let idx := s.indexOf page
  let s := s.releaseLoop idx count
  { s with free := (s.free + count) % 2 ^ 64, hint := idx }

/-- `pmm_free_page` -/
def pmmFreePage (s : Pmm) (page : ℕ) : Pmm := s.pmmFreePages page 1

/-! ### What the functions do -/

variable {s : Pmm} {i n : ℕ}

/-- The state with `n` pages from page `i` on taken. -/
def took (s : Pmm) (i n : ℕ) : Pmm :=
  { s with bitmap := setRange s.bitmap i n, hint := i + n, free := s.free - n }

/-- The state with them given back. -/
def gave (s : Pmm) (i n : ℕ) : Pmm :=
  { s with bitmap := clearRange s.bitmap i n, hint := i, free := s.free + n }

/-- What holds of the variables. -/
structure Ok (s : Pmm) : Prop where
  aligned : s.base % pmmPageSize = 0
  fits : s.base + s.total * pmmPageSize ≤ 2 ^ 64
  reserved_le : s.reserved ≤ s.total
  /-- The first page has the bitmap. -/
  reserved_pos : 0 < s.total → 0 < s.reserved
  /-- The bitmap is in the pages that it has kept. -/
  bitmap_in : s.bitmapBytes ≤ s.reserved * pmmPageSize
  reserved_set : ∀ i < s.reserved, s.bitTest i = true
  /-- The bits of the last byte that stand for no page. -/
  padding : ∀ i, s.total ≤ i → i < 8 * s.bitmapBytes → s.bitTest i = false
  counted : s.free = clearCount s.bitmap s.total

theorem Ok.total_lt (h : s.Ok) : s.total < 2 ^ 64 := by
  have := h.fits
  simp only [pmmPageSize] at this
  omega

theorem Ok.free_lt (h : s.Ok) : s.free < 2 ^ 64 := by
  have hcard : clearCount s.bitmap s.total ≤ (Finset.range s.total).card := Finset.card_filter_le ..
  have := h.total_lt
  rw [Finset.card_range] at hcard
  rw [h.counted]
  omega

/-- The address of a page of the pool. -/
theorem Ok.pageAddr_eq (h : s.Ok) (hi : i < s.total) : s.pageAddr i = s.base + i * pmmPageSize := by
  have := h.fits
  simp only [pmmPageSize] at this
  unfold pageAddr
  simp only [pmmPageSize]
  omega

theorem Ok.indexOf_eq (h : s.Ok) (hi : i < s.total) : s.indexOf (s.base + i * pmmPageSize) = i := by
  have := h.fits
  simp only [pmmPageSize] at this
  simp only [indexOf, wsub, pmmPageSize, pmmPageShift, Nat.shiftRight_eq_div_pow]
  omega

/-- A free page is not one of the bitmap's own. -/
theorem Ok.reserved_le_of_clear (h : s.Ok) (hi : s.bitTest i = false) : s.reserved ≤ i := by
  by_contra hlt
  rw [h.reserved_set i (not_le.mp hlt)] at hi
  cases hi

theorem Ok.took (h : s.Ok) (hfit : i + n ≤ s.total) (hclear : Run s.bitmap false i n) :
    (s.took i n).Ok := by
  refine ⟨h.aligned, h.fits, h.reserved_le, h.reserved_pos, h.bitmap_in, fun j hj => ?_,
    fun j hj hj' => ?_, ?_⟩
  · change bitAt (setRange s.bitmap i n) j = true
    rw [bitAt_setRange (by norm_num), show bitAt s.bitmap j = true from h.reserved_set j hj,
      Bool.true_or]
  · have hout : ¬ (i ≤ j ∧ j < i + n) := by
      change s.total ≤ j at hj
      omega
    change bitAt (setRange s.bitmap i n) j = false
    rw [bitAt_setRange (by norm_num), show bitAt s.bitmap j = false from h.padding j hj hj',
      decide_eq_false hout]
    rfl
  · have hcount := clearCount_setRange (by norm_num) hfit hclear
    have := h.counted
    change s.free - n = clearCount (setRange s.bitmap i n) s.total
    omega

theorem Ok.gave (h : s.Ok) (hres : s.reserved ≤ i) (hfit : i + n ≤ s.total)
    (hset : Run s.bitmap true i n) : (s.gave i n).Ok := by
  refine ⟨h.aligned, h.fits, h.reserved_le, h.reserved_pos, h.bitmap_in, fun j hj => ?_,
    fun j hj hj' => ?_, ?_⟩
  · have hout : ¬ (i ≤ j ∧ j < i + n) := by
      change j < s.reserved at hj
      omega
    change bitAt (clearRange s.bitmap i n) j = true
    rw [bitAt_clearRange (by norm_num), show bitAt s.bitmap j = true from h.reserved_set j hj,
      decide_eq_false hout]
    rfl
  · change bitAt (clearRange s.bitmap i n) j = false
    rw [bitAt_clearRange (by norm_num), show bitAt s.bitmap j = false from h.padding j hj hj',
      Bool.false_and]
  · have hcount := clearCount_clearRange (by norm_num) hfit hset
    have := h.counted
    change s.free + n = clearCount (clearRange s.bitmap i n) s.total
    omega

/-! ### One page -/

/-- Claiming a page that is free. -/
theorem Ok.claimed (h : s.Ok) (hi : i < s.total) (hclear : s.bitTest i = false) :
    ({ s with bitmap := setBit s.bitmap i, hint := i + 1, free := wsub s.free 1 } : Pmm) =
    s.took i 1 := by
  have hpos : 0 < clearCount s.bitmap s.total := Finset.card_pos.mpr ⟨i, mem_clearSet.mpr ⟨hi, hclear⟩⟩
  have hcount := h.counted
  have hfree : wsub s.free 1 = s.free - 1 := wsub_eq (by omega) h.free_lt
  rw [hfree]
  rfl

theorem Ok.allocPageLoop (h : s.Ok) {start : ℕ} (hstart : start ≤ s.total) (left turn : ℕ)
    (hleft : turn + left ≤ s.total) : (∃ i < s.total, s.bitTest i = false ∧
        Pmm.allocPageLoop start left turn s = (s.took i 1, some (s.base + i * pmmPageSize))) ∨
      Pmm.allocPageLoop start left turn s = (s, none) ∧
        ∀ t, turn ≤ t → t < turn + left → s.bitTest (s.turnPage start t) = true := by
  induction left generalizing turn with
  | zero => exact .inr ⟨rfl, fun t _ _ => by omega⟩
  | succ left ih =>
    -- What the rest of the loop says about the rest of the turns, and this turn found nothing.
    have hskip : s.bitTest (s.turnPage start turn) = true →
        (∃ i < s.total, s.bitTest i = false ∧
          Pmm.allocPageLoop start left (turn + 1) s = (s.took i 1, some (s.base + i * pmmPageSize))) ∨
        Pmm.allocPageLoop start left (turn + 1) s = (s, none) ∧
          ∀ t, turn ≤ t → t < turn + (left + 1) →
            s.bitTest (s.turnPage start t) = true := fun hthis => by
      rcases ih (turn + 1) (by omega) with hfound | ⟨hnone, hrest⟩
      · exact .inl hfound
      · refine .inr ⟨hnone, fun t ht htl => ?_⟩
        rcases ht.eq_or_lt with rfl | hlt
        · exact hthis
        · exact hrest t hlt (by omega)
    simp only [Pmm.allocPageLoop]
    split_ifs with hres hset
    · exact hskip (h.reserved_set _ hres)
    · exact hskip hset
    · have hclear : s.bitTest (s.turnPage start turn) = false := Bool.eq_false_iff.mpr hset
      have hlt : s.turnPage start turn < s.total := by
        unfold turnPage
        split_ifs <;> omega
      refine .inl ⟨_, hlt, hclear, ?_⟩
      simp only [tryClaim, hclear, Bool.not_false]
      rw [← h.pageAddr_eq hlt, ← h.claimed hlt hclear]
      rfl

/-- The turns get to every page. -/
theorem exists_turn {start : ℕ} (hstart : start ≤ s.total) (hi : i < s.total) :
    ∃ t < s.total, s.turnPage start t = i := by
  rcases le_or_gt start i with hle | hlt
  · refine ⟨i - start, by omega, ?_⟩
    unfold turnPage
    split_ifs <;> omega
  · refine ⟨i + s.total - start, by omega, ?_⟩
    unfold turnPage
    split_ifs <;> omega

/-- **One page**: some page that is free, or there is none. -/
theorem Ok.allocPage (h : s.Ok) :
    (∃ i < s.total, s.bitTest i = false ∧
      s.pmmAllocPage = (s.took i 1, some (s.base + i * pmmPageSize))) ∨
      s.pmmAllocPage = (s, none) ∧ ∀ i < s.total, s.bitTest i = true := by
  unfold pmmAllocPage
  have hstart : (if s.total ≤ s.hint then s.reserved else s.hint) ≤ s.total := by
    have := h.reserved_le
    split_ifs <;> omega
  rcases h.allocPageLoop hstart s.total 0 (by omega) with hfound | ⟨hnone, hall⟩
  · exact .inl hfound
  · refine .inr ⟨hnone, fun i hi => ?_⟩
    obtain ⟨t, ht, rfl⟩ := exists_turn hstart hi
    exact hall t (Nat.zero_le t) (by omega)

/-- The page that the hint names is taken if it is free. -/
theorem Ok.allocPage_hint (h : s.Ok) (hlt : s.hint < s.total) (hclear : s.bitTest s.hint = false) :
    s.pmmAllocPage = (s.took s.hint 1, some (s.base + s.hint * pmmPageSize)) := by
  obtain ⟨n, hn⟩ : ∃ n, s.total = n + 1 := ⟨s.total - 1, by omega⟩
  have hturn : s.turnPage s.hint 0 = s.hint := if_neg (by omega)
  have hres := not_lt.mpr (h.reserved_le_of_clear hclear)
  have hloop : Pmm.allocPageLoop s.hint (n + 1) 0
      s = (s.took s.hint 1, some (s.base + s.hint * pmmPageSize)) := by
    simp only [Pmm.allocPageLoop, hturn, if_neg hres, hclear, Bool.false_eq_true, if_false,
      Pmm.tryClaim, Bool.not_false]
    rw [← h.pageAddr_eq hlt, ← h.claimed hlt hclear]
    rfl
  unfold Pmm.pmmAllocPage
  rw [if_neg (not_le.mpr hlt), ← hloop, hn]

/-! ### Several pages -/

/-- The length of a run: so many pages are free, and then comes one that is not, unless there are
enough. -/
theorem runLength_spec (s : Pmm) (i n : ℕ) :
    s.runLength i n ≤ n ∧ Run s.bitmap false i (s.runLength i n) ∧
      (s.runLength i n < n → s.bitTest (i + s.runLength i n) = true) := by
  induction n generalizing i with
  | zero => exact ⟨le_rfl,
      fun j hij hj => by simp only [runLength] at hj; omega, fun h => absurd h (lt_irrefl _)⟩
  | succ n ih =>
    obtain ⟨hle, hrun, hend⟩ := ih (i + 1)
    unfold runLength
    split_ifs with hset
    · exact ⟨Nat.zero_le _, fun j hij hj => by omega, fun _ => hset⟩
    · refine ⟨Nat.succ_le_succ hle, fun j hij hj => ?_, fun hlt => ?_⟩
      · rcases hij.eq_or_lt with rfl | hlt
        · exact Bool.eq_false_iff.mpr hset
        · exact hrun j hlt (by omega)
      · have := hend (by omega)
        rwa [show i + 1 + s.runLength (i + 1) n = i + (s.runLength (i + 1) n + 1) by omega] at this

/-- Pages that are free can all be claimed. -/
theorem claimLoop_eq (hclear : Run s.bitmap false i n) :
    s.claimLoop i n = ({ s with bitmap := setRange s.bitmap i n }, n) := by
  induction n generalizing s i with
  | zero => rfl
  | succ n ih =>
    have hfirst : s.bitTest i = false := hclear i le_rfl (by omega)
    have hrest : Run (setBit s.bitmap i) false (i + 1) n := fun j hij hj => by
      rw [bitAt_setBit (by norm_num), hclear j (by omega) (by omega), decide_eq_false (by omega)]
      rfl
    have hloop := ih (s := { s with bitmap := setBit s.bitmap i }) hrest
    simp only [claimLoop, tryClaim, hfirst, Bool.not_false, hloop]
    rfl

theorem releaseLoop_eq (s : Pmm) (i n : ℕ) :
    s.releaseLoop i n = { s with bitmap := clearRange s.bitmap i n } := by
  induction n generalizing s i with
  | zero => rfl
  | succ n ih => exact ih (s.release i) (i + 1)

/-- The pages of a run are there to be taken. -/
theorem Ok.le_free (h : s.Ok) (hfit : i + n ≤ s.total) (hclear : Run s.bitmap false i n) :
    n ≤ s.free := by
  have := clearCount_setRange (by norm_num) hfit hclear
  rw [h.counted]
  omega

theorem Ok.allocPagesLoop (h : s.Ok) {count : ℕ} (turns i : ℕ) (hturns : s.total < i + turns)
    (hcount : 0 < count) : (∃ j, j + count ≤ s.total ∧ Run s.bitmap false j count ∧
        Pmm.allocPagesLoop count turns i s = (s.took j count, some (s.base + j * pmmPageSize))) ∨
      Pmm.allocPagesLoop count turns i s = (s, none) ∧
        ∀ j, i ≤ j → j + count ≤ s.total → ¬ Run s.bitmap false j count := by
  induction turns generalizing i with
  | zero => exact .inr ⟨rfl, fun j hij hj => by omega⟩
  | succ turns ih =>
    obtain ⟨hle, hrun, hend⟩ := s.runLength_spec i count
    unfold Pmm.allocPagesLoop
    split_ifs with hfit hshort
    · -- The page behind the run is taken, and so no run of the pages before it is long enough.
      rcases ih (i + s.runLength i count + 1) (by omega) with hfound | ⟨hnone, hall⟩
      · exact .inl hfound
      · refine .inr ⟨hnone, fun j hij hj hclear => ?_⟩
        rcases le_or_gt j (i + s.runLength i count) with hjr | hjr
        · have hset := hend hshort
          rw [bitTest, hclear _ hjr (by omega)] at hset
          cases hset
        · exact hall j hjr hj hclear
    · have hclear : Run s.bitmap false i count := by
        rwa [show s.runLength i count = count by omega] at hrun
      have hfree : wsub s.free count = s.free - count := wsub_eq (h.le_free hfit hclear) h.free_lt
      refine .inl ⟨i, hfit, hclear, ?_⟩
      rw [claimLoop_eq hclear]
      dsimp only
      rw [if_pos rfl, hfree, ← h.pageAddr_eq (by omega)]
      rfl
    · exact .inr ⟨rfl, fun j hij hj => by omega⟩

/-- **Pages in a row**: some that are free, or there are none so many. -/
theorem Ok.allocPages (h : s.Ok) (count : ℕ) :
    (∃ i, 0 < count ∧ i + count ≤ s.total ∧ Run s.bitmap false i count ∧
        s.pmmAllocPages count = (s.took i count, some (s.base + i * pmmPageSize))) ∨
      s.pmmAllocPages count = (s, none) ∧
      (0 < count → ∀ i, i + count ≤ s.total → ¬ Run s.bitmap false i count) := by
  unfold pmmAllocPages
  split_ifs with hzero hone hmany
  · exact .inr ⟨rfl, fun hpos => absurd hzero hpos.ne'⟩
  · subst hone
    have hsingle : ∀ i, Run s.bitmap false i 1 ↔ s.bitTest i = false := fun i =>
      ⟨fun hrun => hrun i le_rfl (by omega), fun hclear j hij hj => by
        obtain rfl : i = j := by omega
        exact hclear⟩
    rcases h.allocPage with ⟨i, hi, hclear, heq⟩ | ⟨hnone, hall⟩
    · exact .inl ⟨i, Nat.one_pos, hi, (hsingle i).mpr hclear, heq⟩
    · refine .inr ⟨hnone, fun _ i hi hrun => ?_⟩
      have hclear := (hsingle i).mp hrun
      rw [hall i hi] at hclear
      cases hclear
  · -- So many pages are not in the pool, beside those of the bitmap.
    refine .inr ⟨rfl, fun hpos i hi hrun => ?_⟩
    have hres := h.reserved_le_of_clear (hrun i le_rfl (by omega))
    rw [wsub_eq h.reserved_le h.total_lt] at hmany
    omega
  · rcases h.allocPagesLoop (s.total + 1) s.reserved (by omega) (Nat.pos_of_ne_zero hzero) with
      ⟨i, hi, hrun, heq⟩ | ⟨hnone, hall⟩
    · exact .inl ⟨i, Nat.pos_of_ne_zero hzero, hi, hrun, heq⟩
    · refine .inr ⟨hnone,
        fun hpos i hi hrun => hall i (h.reserved_le_of_clear (hrun i le_rfl (by omega))) hi hrun⟩

/-- Pages are given back. -/
theorem Ok.freePages_eq (h : s.Ok) (hpos : 0 < n) (hfit : i + n ≤ s.total)
    (hset : Run s.bitmap true i n) : s.pmmFreePages (s.base + i * pmmPageSize) n = s.gave i n := by
  have hcount := clearCount_clearRange (by norm_num) hfit hset
  have hcard : clearCount (clearRange s.bitmap i n) s.total ≤ s.total :=
    (Finset.card_filter_le ..).trans_eq (Finset.card_range _)
  have hlt := h.total_lt
  have hfree : (s.free + n) % 2 ^ 64 = s.free + n := Nat.mod_eq_of_lt (by rw [h.counted]; omega)
  unfold pmmFreePages
  simp only [h.indexOf_eq (show i < s.total by omega), releaseLoop_eq, hfree]
  rfl

/-! ### The start -/

end Pmm

/-- A region of memory, in 64 bits. -/
structure Region where
  base : ℕ
  size : ℕ
  base_lt : base < 2 ^ 64
  size_lt : size < 2 ^ 64
  fits : base + size ≤ 2 ^ 64

/-- The pool is the region, rounded inward. -/
theorem Pmm.pmmInit_pool (old : ℕ → BitVec 8) (r : Region) :
    let s := Pmm.pmmInit old r.base r.size
    s.base % pmmPageSize = 0 ∧ s.base + s.total * pmmPageSize ≤ 2 ^ 64 ∧
      (0 < s.total → r.base ≤ s.base ∧ s.base + s.total * pmmPageSize ≤ r.base + r.size) := by
  obtain ⟨base, size, hbase, hsize, hfits⟩ := r
  simp only [Pmm.pmmInit, pageFloor_eq (Nat.mod_lt _ (Nat.two_pow_pos 64)), wsub, pmmPageSize]
  have hle : (if size < (((base + 4096 - 1) % 2 ^ 64 / 4096 * 4096) + 2 ^ 64 - base) % 2 ^ 64 then 0
      else size - (((base + 4096 - 1) % 2 ^ 64 / 4096 * 4096) + 2 ^ 64 - base) % 2 ^ 64) < 2 ^ 64 := by
    split_ifs <;> omega
  rw [pageFloor_eq hle]
  simp only [pmmPageSize]
  split_ifs with hsmall
  · omega
  · rcases Nat.lt_or_ge (base + 4095) (2 ^ 64) with hlow | hhigh
    · omega
    · omega

/-- The bitmap is clear, but for the bits of its own pages. -/
theorem Pmm.pmmInit_bitmap (old : ℕ → BitVec 8) (base size : ℕ) :
    ∃ clear : ℕ → BitVec 8, (∀ i < 8 * (Pmm.pmmInit old base size).bitmapBytes, bitAt clear i = false) ∧
      (Pmm.pmmInit old base size).bitmap = setRange clear 0 (Pmm.pmmInit old base size).reserved := by
  refine ⟨fun k => if k < (Pmm.pmmInit old base size).bitmapBytes then 0#8 else old k,
    fun i hi => ?_, rfl⟩
  have hbyte : i / 8 < (Pmm.pmmInit old base size).bitmapBytes := by omega
  rw [bitAt, if_pos hbyte, BitVec.getLsbD_zero]

theorem Pmm.pmmInit_ok (old : ℕ → BitVec 8) (r : Region) : (Pmm.pmmInit old r.base r.size).Ok := by
  obtain ⟨haligned, hfits, -⟩ := Pmm.pmmInit_pool old r
  obtain ⟨clear, hzero, hbitmap⟩ := Pmm.pmmInit_bitmap old r.base r.size
  have hreserved : (Pmm.pmmInit old r.base r.size).reserved =
      ((Pmm.pmmInit old r.base r.size).bitmapBytes + pmmPageSize - 1) / pmmPageSize := rfl
  have hfree : (Pmm.pmmInit old r.base r.size).free =
      wsub (Pmm.pmmInit old r.base r.size).total (Pmm.pmmInit old r.base r.size).reserved := rfl
  generalize Pmm.pmmInit old r.base r.size = s at *
  have hbytes : s.bitmapBytes = (s.total + 7) / 8 := rfl
  simp only [pmmPageSize] at hfits hreserved
  have hle : s.reserved ≤ s.total := by omega
  refine ⟨haligned, hfits, hle,
    fun _ => by omega, by simp only [pmmPageSize]; omega, fun i hi => ?_, fun i hi hi' => ?_, ?_⟩
  · rw [Pmm.bitTest, hbitmap, bitAt_setRange (by norm_num), decide_eq_true (by omega), Bool.or_true]
  · rw [Pmm.bitTest, hbitmap, bitAt_setRange (by norm_num), hzero i hi', decide_eq_false (by omega)]
    rfl
  · have hall : clearCount clear s.total = s.total := by
      rw [clearCount, clearSet, Finset.filter_true_of_mem, Finset.card_range]
      intro i hi
      have := Finset.mem_range.mp hi
      exact hzero i (by omega)
    have hfit : 0 + s.reserved ≤ s.total := by omega
    have hcount := clearCount_setRange (by norm_num) hfit fun j _ hj => hzero j (by omega)
    rw [← hbitmap, hall] at hcount
    rw [hfree, wsub_eq hle (by omega)]
    omega

/-! ### Who has what -/

namespace Pmm

variable {s : Pmm}

/-- A page is one of a run, which is given by its first page and its length. -/
def InRun (run : ℕ × ℕ) (i : ℕ) : Prop := run.1 ≤ i ∧ i < run.1 + run.2

instance (run : ℕ × ℕ) (i : ℕ) : Decidable (InRun run i) := inferInstanceAs (Decidable (_ ∧ _))

/-- The bitmap says what is in use: its own pages, pages that are pinned, and the runs that are
live. -/
structure Tracks (s : Pmm) (pinned : ℕ → Prop) (live : List (ℕ × ℕ)) : Prop where
  ok : s.Ok
  used : ∀ i < s.total, s.bitTest i = true ↔ i < s.reserved ∨ pinned i ∨ ∃ run ∈ live, InRun run i
  inside : ∀ run ∈ live, 0 < run.2 ∧ s.reserved ≤ run.1 ∧ run.1 + run.2 ≤ s.total
  apart : live.Pairwise fun run run' => ∀ i, InRun run i → ¬ InRun run' i
  unpinned : ∀ run ∈ live, ∀ i, InRun run i → ¬ pinned i

variable {pinned : ℕ → Prop} {live : List (ℕ × ℕ)} {i n : ℕ}

section

variable (h : s.Tracks pinned live)
include h

/-- The order of the runs does not matter. -/
theorem Tracks.perm {live' : List (ℕ × ℕ)} (hperm : live.Perm live') : s.Tracks pinned live' where
  ok := h.ok
  used i hi := by
    rw [h.used i hi]
    simp only [hperm.mem_iff]
  inside run hrun := h.inside run (hperm.mem_iff.mpr hrun)
  apart := (hperm.pairwise_iff fun hab j hb ha => hab j ha hb).mp h.apart
  unpinned run hrun := h.unpinned run (hperm.mem_iff.mpr hrun)

theorem Tracks.took (hpos : 0 < n) (hfit : i + n ≤ s.total) (hclear : Run s.bitmap false i n) :
    (s.took i n).Tracks pinned ((i, n) :: live) := by
  have hfree : ∀ j, InRun (i, n) j → ¬ (j < s.reserved ∨ pinned j ∨ ∃ run ∈ live, InRun run j) :=
      fun j hj hused => by
    have hset := (h.used j (by have := hj.2; dsimp only at this; omega)).mpr hused
    rw [bitTest, hclear j hj.1 hj.2] at hset
    cases hset
  refine ⟨h.ok.took hfit hclear, fun j hj => ?_, fun run hrun => ?_, pairwise_cons.mpr
    ⟨fun run hrun j hj hin => ?_, h.apart⟩, fun run hrun j hj => ?_⟩
  · change bitAt (setRange s.bitmap i n) j = true ↔ _
    rw [bitAt_setRange (by norm_num), Bool.or_eq_true, decide_eq_true_iff]
    change s.bitTest j = true ∨ InRun (i, n) j ↔ j < s.reserved ∨ pinned j ∨ _
    rw [h.used j hj]
    simp only [mem_cons, exists_eq_or_imp]
    rw [or_assoc, or_assoc, or_comm (b := InRun (i, n) j)]
  · rcases mem_cons.mp hrun with rfl | hrun
    · exact ⟨hpos, not_lt.mp fun hlt => hfree i ⟨le_rfl, by dsimp only; omega⟩ (.inl hlt), hfit⟩
    · exact h.inside run hrun
  · exact hfree j hj (.inr (.inr ⟨run, hrun, hin⟩))
  · rcases mem_cons.mp hrun with rfl | hrun
    · exact fun hpin => hfree j hj (.inr (.inl hpin))
    · exact h.unpinned run hrun j hj

/-- The pages of a live run are set. -/
theorem Tracks.run_set (hrun : (i, n) ∈ live) : Run s.bitmap true i n := fun j hij hj =>
  (h.used j (by have := (h.inside _ hrun).2.2; dsimp only at this; omega)).mpr
  (.inr (.inr ⟨_, hrun, hij, hj⟩))

theorem Tracks.gave (hrun : (i, n) ∈ live) :
    (s.gave i n).Tracks pinned (live.erase (i, n)) := by
  obtain ⟨hpos, hres, hfit⟩ := h.inside _ hrun
  have hperm := perm_cons_erase hrun
  have hpair := (hperm.pairwise_iff fun hab j hb ha => hab j ha hb).mp h.apart
  obtain ⟨hother, hapart⟩ := pairwise_cons.mp hpair
  have hmem : ∀ run ∈ live.erase (i, n), run ∈ live := fun _ => mem_of_mem_erase
  refine ⟨h.ok.gave hres hfit (h.run_set hrun), fun j hj => ?_,
    fun run hin => h.inside run (hmem run hin), hapart,
      fun run hin => h.unpinned run (hmem run hin)⟩
  change bitAt (clearRange s.bitmap i n) j = true ↔ j < s.reserved ∨ pinned j ∨ _
  rw [bitAt_clearRange (by norm_num), Bool.and_eq_true, Bool.not_eq_true', decide_eq_false_iff_not]
  change s.bitTest j = true ∧ ¬ InRun (i, n) j ↔ _
  rw [h.used j hj]
  constructor
  · rintro ⟨hlow | hpin | ⟨run, hin, hj'⟩, hout⟩
    · exact .inl hlow
    · exact .inr (.inl hpin)
    · rcases mem_cons.mp (hperm.mem_iff.mp hin) with rfl | hin
      · exact absurd hj' hout
      · exact .inr (.inr ⟨run, hin, hj'⟩)
  · rintro (hlow | hpin | ⟨run, hin, hj'⟩)
    · exact ⟨.inl hlow, fun hin => by have := hin.1; dsimp only at this hres; omega⟩
    · exact ⟨.inr (.inl hpin), fun hin => h.unpinned _ hrun j hin hpin⟩
    · exact ⟨.inr (.inr ⟨run, hmem run hin, hj'⟩), fun hin' => hother run hin j hin' hj'⟩

/-- The pages of a run that is taken were free. -/
theorem Tracks.clear {j : ℕ} (h' : (s.took i n).Tracks pinned ((i, n) :: live))
    (hj : InRun (i, n) j) : s.bitTest j = false := by
  obtain ⟨-, hres, hfit⟩ := h'.inside _ mem_cons_self
  have hlt : j < s.total := hj.2.trans_le hfit
  have hres : s.reserved ≤ j := hres.trans hj.1
  rw [← Bool.not_eq_true, h.used j hlt, not_or, not_or]
  refine ⟨not_lt.mpr hres, h'.unpinned _ mem_cons_self j hj, ?_⟩
  rintro ⟨run, hrun, hin⟩
  exact (pairwise_cons.mp h'.apart).1 run hrun j hj hin

/-- An allocation of some pages, with what it returns. -/
theorem Tracks.allocPages (count : ℕ) :
    (∃ i, (s.took i count).Tracks pinned ((i, count) :: live) ∧
        s.pmmAllocPages count = (s.took i count, some (s.base + i * pmmPageSize))) ∨
      s.pmmAllocPages count = (s, none) := by
  rcases h.ok.allocPages count with ⟨i, hpos, hfit, hclear, heq⟩ | ⟨hnone, -⟩
  · exact .inl ⟨i, h.took hpos hfit hclear, heq⟩
  · exact .inr hnone

theorem Tracks.allocPage :
    (∃ i, (s.took i 1).Tracks pinned ((i, 1) :: live) ∧
        s.pmmAllocPage = (s.took i 1, some (s.base + i * pmmPageSize))) ∨ s.pmmAllocPage = (s, none) :=
  h.allocPages 1

/-- A run that is live is given back. -/
theorem Tracks.freePages (hrun : (i, n) ∈ live) :
    s.pmmFreePages (s.base + i * pmmPageSize) n = s.gave i n := by
  obtain ⟨hpos, -, hfit⟩ := h.inside _ hrun
  exact h.ok.freePages_eq hpos hfit (h.run_set hrun)

end

end Pmm

/-! ### Runs -/

/-- The allocator and the runs of pages that its clients have: the address of the first page, and
how many there are. -/
structure PmmClients where
  pmm : Pmm
  live : List (ℕ × ℕ) := []

/-- What clients do. -/
inductive PmmStep where
  | allocPage
  | allocPages (count : ℕ)
  | freePage (page : ℕ)
  | freePages (page count : ℕ)
  deriving DecidableEq, Repr

namespace PmmClients

/-- The client has got what an allocation returned. -/
def got (x : PmmClients) (count : ℕ) : Pmm × Option ℕ → PmmClients
  | (pmm, none) => { x with pmm }
  | (pmm, some page) => { pmm, live := (page, count) :: x.live }

def step (x : PmmClients) : PmmStep → PmmClients
  | .allocPage => x.got 1 x.pmm.pmmAllocPage
  | .allocPages count => x.got count (x.pmm.pmmAllocPages count)
  | .freePage page => { pmm := x.pmm.pmmFreePage page, live := x.live.erase (page, 1) }
  | .freePages page count => { pmm := x.pmm.pmmFreePages page count, live := x.live.erase (page, count) }

/-- Clients free what they have got, and as much of it. -/
def Matching (x : PmmClients) : PmmStep → Prop
  | .freePage page => (page, 1) ∈ x.live
  | .freePages page count => (page, count) ∈ x.live
  | .allocPage | .allocPages _ => True

instance (x : PmmClients) : DecidablePred x.Matching
  | .freePage page => inferInstanceAs (Decidable ((page, 1) ∈ x.live))
  | .freePages page count => inferInstanceAs (Decidable ((page, count) ∈ x.live))
  | .allocPage | .allocPages _ => inferInstanceAs (Decidable True)

/-- The runs of the clients, by the numbers of their pages. -/
structure Good (base total reserved : ℕ) (x : PmmClients) (runs : List (ℕ × ℕ)) : Prop where
  tracks : x.pmm.Tracks (fun _ => False) runs
  live_eq : x.live = runs.map fun run => (base + run.1 * pmmPageSize, run.2)
  base_eq : x.pmm.base = base
  total_eq : x.pmm.total = total
  reserved_eq : x.pmm.reserved = reserved

variable {base total reserved : ℕ} {x : PmmClients} {runs : List (ℕ × ℕ)}

theorem Good.allocPages (h : Good base total reserved x runs) (count : ℕ) :
    ∃ runs', Good base total reserved (x.got count (x.pmm.pmmAllocPages count)) runs' := by
  rcases h.tracks.allocPages count with ⟨i, htracks, heq⟩ | heq
  · rw [heq]
    exact ⟨(i, count) :: runs, htracks,
      by rw [map_cons, ← h.live_eq, h.base_eq]; rfl, h.base_eq, h.total_eq, h.reserved_eq⟩
  · rw [heq]
    exact ⟨runs, h⟩

theorem Good.freePages (h : Good base total reserved x runs) {page count : ℕ}
    (hlive : (page, count) ∈ x.live) :
    ∃ runs', Good base total reserved ⟨x.pmm.pmmFreePages page count, x.live.erase (page, count)⟩
      runs' := by
  have hinj : Function.Injective fun run : ℕ × ℕ => (base + run.1 * pmmPageSize, run.2) :=
      fun a b hab => by
    simp only [Prod.mk.injEq, pmmPageSize] at hab
    exact Prod.ext (by omega) hab.2
  rw [h.live_eq, mem_map] at hlive
  obtain ⟨⟨i, n⟩, hrun, heq⟩ := hlive
  obtain ⟨rfl, rfl⟩ := Prod.mk.inj heq
  refine ⟨runs.erase (i, n), ?_, ?_, ?_, ?_, ?_⟩
  · rw [← h.base_eq, h.tracks.freePages hrun]
    exact h.tracks.gave hrun
  · rw [h.live_eq, map_erase hinj]
  · rw [← h.base_eq, h.tracks.freePages hrun]
    rfl
  · rw [← h.base_eq, h.tracks.freePages hrun]
    exact h.total_eq
  · rw [← h.base_eq, h.tracks.freePages hrun]
    exact h.reserved_eq

theorem Good.step (h : Good base total reserved x runs) {a : PmmStep} (hok : x.Matching a) :
    ∃ runs', Good base total reserved (x.step a) runs' := by
  cases a with
  | allocPage => exact h.allocPages 1
  | allocPages count => exact h.allocPages count
  | freePage page | freePages page count => exact h.freePages hok

theorem tracks_init (old : ℕ → BitVec 8) (r : Region) :
    (Pmm.pmmInit old r.base r.size).Tracks (fun _ => False) [] := by
  have hok := Pmm.pmmInit_ok old r
  refine ⟨hok, fun i hi => ?_, by simp, List.Pairwise.nil, by simp⟩
  obtain ⟨clear, hzero, hbitmap⟩ := Pmm.pmmInit_bitmap old r.base r.size
  rw [Pmm.bitTest, hbitmap, bitAt_setRange (by norm_num),
    hzero i (by unfold Pmm.bitmapBytes; omega), Bool.false_or, decide_eq_true_iff]
  simp

/-- Runs that have no page in common lie behind one another. -/
theorem disjoint_runs {a b : ℕ × ℕ} (ha : 0 < a.2) (hb : 0 < b.2)
    (hab : ∀ i, Pmm.InRun a i → ¬ Pmm.InRun b i) :
    base + a.1 * 4096 + a.2 * 4096 ≤ base + b.1 * 4096 ∨
      base + b.1 * 4096 + b.2 * 4096 ≤ base + a.1 * 4096 := by
  have hnot := hab (max a.1 b.1)
  simp only [Pmm.InRun] at hnot
  omega

/-- **The page allocator.** After any run of allocations and matching frees, from any region: the
free count is the number of clear bits; the runs that clients have lie in the region, behind the
bitmap, and apart from each other; and a bit is clear just when its page is not one of the bitmap's
and nobody has it. An allocation of a page fails just when no page is free, and one of several pages
just when there are not so many in a row. -/
theorem runs_ok (old : ℕ → BitVec 8) (r : Region) (steps : List PmmStep)
    (hok : RunOk step Matching { pmm := Pmm.pmmInit old r.base r.size } steps) :
    let x := runFrom step { pmm := Pmm.pmmInit old r.base r.size } steps
    x.pmm.free = clearCount x.pmm.bitmap x.pmm.total ∧
      (∀ run ∈ x.live, 0 < run.2 ∧ r.base ≤ x.pmm.base ∧ x.pmm.base + x.pmm.bitmapBytes ≤ run.1 ∧
        x.pmm.base + x.pmm.reserved * pmmPageSize ≤ run.1 ∧
        run.1 + run.2 * pmmPageSize ≤ r.base + r.size) ∧
      x.live.Pairwise (fun run run' => run.1 + run.2 * pmmPageSize ≤ run'.1 ∨
        run'.1 + run'.2 * pmmPageSize ≤ run.1) ∧
      (∀ i < x.pmm.total, x.pmm.bitTest i = false ↔ x.pmm.reserved ≤ i ∧
        ∀ run ∈ x.live, ¬ (run.1 ≤ x.pmm.base + i * pmmPageSize ∧
          x.pmm.base + i * pmmPageSize < run.1 + run.2 * pmmPageSize)) ∧
      (x.pmm.pmmAllocPage.2 = none ↔ ¬ ∃ i < x.pmm.total, x.pmm.bitTest i = false) ∧
      ∀ n, (x.pmm.pmmAllocPages n).2 = none ↔
        ¬ (0 < n ∧ ∃ i, i + n ≤ x.pmm.total ∧ ∀ j, i ≤ j → j < i + n → x.pmm.bitTest j = false) := by
  have hstart : Good (Pmm.pmmInit old r.base r.size).base (Pmm.pmmInit old r.base r.size).total
      (Pmm.pmmInit old r.base r.size).reserved { pmm := Pmm.pmmInit old r.base r.size } [] :=
    ⟨tracks_init old r, rfl, rfl, rfl, rfl⟩
  obtain ⟨runs, h⟩ := hok.inv (fun x => ∃ runs, Good _ _ _ x runs)
    (fun _ _ hok h => h.elim fun _ h => h.step hok) ⟨[], hstart⟩
  obtain ⟨-, -, hregion⟩ := Pmm.pmmInit_pool old r
  intro x
  change Good _ _ _ x runs at h
  clear_value x
  rw [← h.base_eq, ← h.total_eq] at hregion
  have hlive := h.live_eq
  rw [← h.base_eq] at hlive
  refine ⟨h.tracks.ok.counted, fun run hrun => ?_, ?_, fun i hi => ?_, ?_, fun n => ?_⟩
  · rw [hlive, mem_map] at hrun
    obtain ⟨⟨i, n⟩, hrun, rfl⟩ := hrun
    obtain ⟨hpos, hres, hfit⟩ := h.tracks.inside _ hrun
    obtain ⟨hbase, hend⟩ := hregion (by dsimp only at hpos hfit; omega)
    have hbehind : x.pmm.reserved * pmmPageSize ≤ i * pmmPageSize := Nat.mul_le_mul_right _ hres
    have hbitmap := h.tracks.ok.bitmap_in
    refine ⟨hpos, hbase, Nat.add_le_add_left (hbitmap.trans hbehind) _, Nat.add_le_add_left hbehind
      _, le_trans ?_ hend⟩
    rw [Nat.add_assoc, ← Nat.add_mul]
    exact Nat.add_le_add_left (Nat.mul_le_mul_right _ hfit) _
  · rw [hlive, pairwise_map]
    refine h.tracks.apart.imp_of_mem fun {a b} ha hb hab => ?_
    obtain ⟨hpos, -, -⟩ := h.tracks.inside a ha
    obtain ⟨hpos', -, -⟩ := h.tracks.inside b hb
    simp only [pmmPageSize]
    exact disjoint_runs hpos hpos' hab
  · have hused := h.tracks.used i hi
    rw [← Bool.not_eq_true, hused, not_or, not_or, not_lt, hlive]
    simp only [not_false_eq_true, true_and, not_exists, not_and, mem_map, forall_exists_index, and_imp,
      forall_apply_eq_imp_iff₂, Pmm.InRun, pmmPageSize]
    refine and_congr_right fun _ => forall₂_congr fun run _ => ?_
    constructor <;> intro hout hle <;> omega
  · rcases h.tracks.ok.allocPage with ⟨i, hi, hclear, heq⟩ | ⟨heq, hall⟩
    · rw [heq]
      exact iff_of_false (by simp) (not_not.mpr ⟨i, hi, hclear⟩)
    · rw [heq]
      refine iff_of_true rfl ?_
      rintro ⟨i, hi, hclear⟩
      rw [hall i hi] at hclear
      cases hclear
  · rcases h.tracks.ok.allocPages n with ⟨i, hpos, hfit, hclear, heq⟩ | ⟨heq, hall⟩
    · rw [heq]
      exact iff_of_false (by simp) (not_not.mpr ⟨hpos, i, hfit, hclear⟩)
    · rw [heq]
      refine iff_of_true rfl ?_
      rintro ⟨hpos, i, hfit, hclear⟩
      exact hall hpos i hfit hclear

/-- Four pages, of which the bitmap takes the first. -/
def fourPages : Region where
  base := 4096
  size := 16384
  base_lt := by norm_num
  size_lt := by norm_num
  fits := by norm_num

/-- One page and two pages are taken, and the one is given back. -/
def oneAndTwo : List PmmStep := [.allocPage, .allocPages 2, .freePage 8192]

theorem runs_ok_one_and_two :
    let x := runFrom step { pmm := Pmm.pmmInit (fun _ => 255#8) fourPages.base fourPages.size } oneAndTwo
    x.live = [(12288, 2)] ∧ x.pmm.free = 1 ∧ x.pmm.free = clearCount x.pmm.bitmap x.pmm.total :=
  ⟨by decide +kernel, by decide +kernel, (runs_ok (fun _ => 255#8) fourPages oneAndTwo (by decide +kernel)).1⟩

end PmmClients

end Nonux.Core
