import Nonux.Core.Pmm

/-!
# Reserving a range (`pmm_reserve_range`)

The function rounds a range of addresses to pages, cuts it down to the pool, and marks what is left.
All its arithmetic is unsigned, and three things are missing: a range that ends below the pool is
not cut down to nothing, so that the number of its last page is negative, and that is a large one; a
range that is rounded up to the end of the address space ends at 0; and so does a pool that ends
there.

## What is proved

`reservesExactly_iff` says for every range and every pool when the function does what it is for
(`ReservesExactly`). The loop is one thing (`reservesExactly_iff_loop`), and the bounds that it is
given are another (`loop_iff`).
-/

namespace Nonux.Core

open Nonux.Lib Nonux.Lib.BitArray Finset

namespace Pmm

/-! ### The function -/

/-- The first page that the loop of `pmm_reserve_range` marks, and the first that it does not;
nothing if it returns before. -/
def reserveBounds (s : Pmm) (pa bytes : ℕ) : Option (ℕ × ℕ) :=
  let first := pageFloor pa
  let last := pageFloor ((pa + bytes + pmmPageSize - 1) % 2 ^ 64)
  if last ≤ first then none
  else
    let first := if first < s.base then s.base else first
    let limit := (s.base + s.total * pmmPageSize) % 2 ^ 64
    if limit ≤ first then none
    else
      let last := if limit < last then limit else last
      some (wsub first s.base >>> pmmPageShift, wsub last s.base >>> pmmPageShift)

/-- The loop, over `n` pages from page `i` on. -/
def reserveLoop (s : Pmm) (i : ℕ) : ℕ → Pmm
  | 0 => s
  | n + 1 =>
    match s.tryClaim i with
    | (s, true) => reserveLoop { s with free := wsub s.free 1 } (i + 1) n
    | (s, false) => reserveLoop s (i + 1) n

/-- `pmm_reserve_range` -/
def pmmReserveRange (s : Pmm) (pa bytes : ℕ) : Pmm :=
  match s.reserveBounds pa bytes with
  | none => s
  | some (iStart, iEnd) => s.reserveLoop iStart (iEnd - iStart)

/-- The pages that the loop gets to. -/
def InLoop (s : Pmm) (pa bytes i : ℕ) : Prop := ∃ b ∈ s.reserveBounds pa bytes, b.1 ≤ i ∧ i < b.2

/-! ### What it is for -/

/-- A page of the pool has an address of the range. -/
def Overlaps (s : Pmm) (pa bytes i : ℕ) : Prop :=
  s.base + i * pmmPageSize < pa + bytes ∧ pa < s.base + i * pmmPageSize + pmmPageSize

instance (s : Pmm) (pa bytes i : ℕ) : Decidable (s.Overlaps pa bytes i) :=
  inferInstanceAs (Decidable (_ ∧ _))

/-- The pages of the range are marked and no others; the free count is lowered by those that were
free; and the bytes of memory that are touched are all in the bitmap. -/
structure ReservesExactly (s : Pmm) (pa bytes : ℕ) : Prop where
  marked : ∀ i < s.total,
    (s.pmmReserveRange pa bytes).bitTest i = true ↔ s.bitTest i = true ∨ s.Overlaps pa bytes i
  counted : (s.pmmReserveRange pa bytes).free +
    ((range s.total).filter fun i => s.bitTest i = false ∧ s.Overlaps pa bytes i).card = s.free
  inside : ∀ i, s.InLoop pa bytes i → i / 8 < s.bitmapBytes

/-! ### The loop -/

variable {s : Pmm} {pa bytes i n : ℕ}

/-- How many of `n` bits from bit `i` on are clear. -/
def clearIn (s : Pmm) (i n : ℕ) : ℕ := ((Finset.Ico i (i + n)).filter fun j => s.bitTest j = false).card

theorem clearIn_le (s : Pmm) (i n : ℕ) : s.clearIn i n ≤ n :=
  (card_filter_le ..).trans (by simp)

theorem clearIn_succ (s : Pmm) (i n : ℕ) :
    s.clearIn i (n + 1) = (if s.bitTest i = false then 1 else 0) + s.clearIn (i + 1) n := by
  have hico : Finset.Ico i (i + (n + 1)) = insert i (Finset.Ico (i + 1) (i + 1 + n)) := by
    ext j
    simp only [mem_Ico, mem_insert]
    omega
  have hnot : i ∉ Finset.Ico (i + 1) (i + 1 + n) := by simp
  unfold clearIn
  rw [hico, filter_insert]
  split_ifs
  · rw [card_insert_of_notMem fun h => hnot (mem_of_mem_filter i h), Nat.add_comm]
  · rw [Nat.zero_add]

/-- The loop sets the bits and takes as many off the count as were clear. -/
theorem reserveLoop_eq (hfree : s.free < 2 ^ 64) (hn : n < 2 ^ 64) :
    s.reserveLoop i n = { s with bitmap := setRange s.bitmap i n, free := wsub s.free (s.clearIn i n) } := by
  induction n generalizing s i with
  | zero =>
    have hzero : s.clearIn i 0 = 0 := by simp [clearIn]
    rw [hzero, wsub_eq (Nat.zero_le _) hfree]
    rfl
  | succ n ih =>
    -- The bits behind the first are the same when it is set.
    have hrest : ∀ f, clearIn { s with bitmap := setBit s.bitmap i, free := f } (i + 1)
        n = s.clearIn (i + 1) n := fun f => by
      unfold clearIn
      congr 1
      refine filter_congr fun j hj => ?_
      have hne : j ≠ i := by
        have := (mem_Ico.mp hj).1
        omega
      change bitAt (setBit s.bitmap i) j = false ↔ bitAt s.bitmap j = false
      rw [bitAt_setBit (by norm_num), decide_eq_false hne, Bool.or_false]
    have hle := s.clearIn_le (i + 1) n
    rw [clearIn_succ]
    unfold reserveLoop tryClaim
    cases hbit : s.bitTest i with
    | false =>
      have hlt : wsub s.free 1 < 2 ^ 64 := Nat.mod_lt _ (by norm_num)
      have hsub : wsub (wsub s.free 1) (s.clearIn (i + 1) n) = wsub s.free
          (1 + s.clearIn (i + 1) n) := by
        unfold wsub
        omega
      have hloop := ih (s := { s with bitmap := setBit s.bitmap i, free := wsub s.free 1 })
        (i := i + 1) hlt (by omega)
      rw [hrest] at hloop
      simp only [Bool.not_false, if_true, hloop, hsub]
      rfl
    | true =>
      have hloop := ih (s := { s with bitmap := setBit s.bitmap i }) (i := i + 1) hfree (by omega)
      rw [show clearIn { s with bitmap := setBit s.bitmap i } (i + 1) n = s.clearIn (i + 1) n
        from hrest s.free] at hloop
      simp only [Bool.not_true, hloop]
      simp [setRange]

/-- The function marks a stretch of bits, which may be empty. -/
theorem exists_stretch (hfree : s.free < 2 ^ 64) (pa bytes : ℕ) : ∃ a n, n < 2 ^ 64 ∧
    (∀ i, s.InLoop pa bytes i ↔ a ≤ i ∧ i < a + n) ∧
      s.pmmReserveRange pa bytes = { s with bitmap := setRange s.bitmap a n, free := wsub s.free (s.clearIn a n) } := by
  unfold pmmReserveRange InLoop
  cases hb : s.reserveBounds pa bytes with
  | none =>
    exact ⟨0, 0, by norm_num, fun i => by simp, reserveLoop_eq (i := 0) (n := 0) hfree (by norm_num)⟩
  | some b =>
    obtain ⟨iStart, iEnd⟩ := b
    have hlt : iEnd < 2 ^ 64 := by
      unfold reserveBounds at hb
      dsimp only at hb
      split_ifs at hb <;>
        · obtain ⟨-, rfl⟩ := Prod.mk.inj (Option.some.inj hb)
          rw [Nat.shiftRight_eq_div_pow]
          exact (Nat.div_le_self ..).trans_lt (Nat.mod_lt _ (by norm_num))
    refine ⟨iStart, iEnd - iStart, by omega, fun i => ?_, reserveLoop_eq hfree (by omega)⟩
    simp only [Option.mem_def, Option.some_inj, exists_eq_left']
    omega

/-- The clear bits of a stretch, in the pool and behind it. -/
theorem clearIn_split (s : Pmm) (i n : ℕ) : s.clearIn i n =
    ((range s.total).filter fun j => s.bitTest j = false ∧ i ≤ j ∧ j < i + n).card +
      ((Finset.Ico i (i + n)).filter fun j => s.bitTest j = false ∧ s.total ≤ j).card := by
  unfold clearIn
  rw [← card_filter_add_card_filter_not fun j => j < s.total, filter_filter, filter_filter]
  congr 2
  · ext j
    simp only [mem_filter, mem_Ico, mem_range]
    tauto
  · ext j
    simp only [mem_filter, mem_Ico, not_lt]

/-- **The loop is right** if all that it gets to is in the pool, and of the free pages it gets to
those of the range. -/
theorem Ok.reservesExactly_iff_loop (h : s.Ok) (pa bytes : ℕ) :
    s.ReservesExactly pa bytes ↔ (∀ i, s.InLoop pa bytes i → i < s.total) ∧
      ∀ i < s.total, s.bitTest i = false → (s.InLoop pa bytes i ↔ s.Overlaps pa bytes i) := by
  obtain ⟨a, n, hn, hloop, heq⟩ := exists_stretch h.free_lt pa bytes
  have hbit : ∀ i, (s.pmmReserveRange pa bytes).bitTest i = true ↔ s.bitTest i = true ∨ s.InLoop pa bytes i := fun i => by
    rw [heq, hloop]
    change bitAt (setRange s.bitmap a n) i = true ↔ _
    rw [bitAt_setRange (by norm_num), Bool.or_eq_true, decide_eq_true_iff]
    rfl
  have hfree : (s.pmmReserveRange pa bytes).free = wsub s.free (s.clearIn a n) := by rw [heq]
  have hsplit := s.clearIn_split a n
  have hle := s.clearIn_le a n
  -- The free pages that the loop gets to are the free pages of the range.
  have hcard : (∀ i < s.total, s.bitTest i = false → (s.InLoop pa bytes i ↔ s.Overlaps pa bytes i)) →
      ((range s.total).filter fun j => s.bitTest j = false ∧ a ≤ j ∧ j < a + n).card =
        ((range s.total).filter fun i =>
          s.bitTest i = false ∧ s.Overlaps pa bytes i).card := fun hsame => by
    congr 1
    refine filter_congr fun i hi => and_congr_right fun hclear => ?_
    rw [← hloop]
    exact hsame i (mem_range.mp hi) hclear
  have hmax : ((range s.total).filter fun i => s.bitTest i = false ∧ s.Overlaps pa bytes i).card ≤
      s.free := by
    rw [h.counted]
    refine card_le_card fun i hi => ?_
    rw [mem_filter, mem_range] at hi
    exact mem_clearSet.mpr ⟨hi.1, hi.2.1⟩
  have hlt := h.free_lt
  constructor
  · intro hright
    have hsame : ∀ i < s.total, s.bitTest i = false →
        (s.InLoop pa bytes i ↔ s.Overlaps pa bytes i) := fun i hi hclear => by
      have hmarked := hright.marked i hi
      rw [hbit, hclear] at hmarked
      simpa using hmarked
    refine ⟨fun i hi => ?_, hsame⟩
    by_contra hout
    -- A bit behind the pool is one of the last byte. It is clear, and so the count is too low.
    have hpad : s.bitTest i = false :=
      h.padding i (not_lt.mp hout) (by have := hright.inside i hi; omega)
    have hpos : 0 < ((Finset.Ico a (a + n)).filter fun j => s.bitTest j = false ∧ s.total ≤ j).card :=
      card_pos.mpr ⟨i, mem_filter.mpr ⟨mem_Ico.mpr ((hloop i).mp hi), hpad, not_lt.mp hout⟩⟩
    have hcount := hright.counted
    rw [hfree] at hcount
    have hsum := hcard hsame
    unfold wsub at hcount
    omega
  · rintro ⟨hin, hsame⟩
    have hnone : ((Finset.Ico a (a + n)).filter fun j => s.bitTest j = false ∧ s.total ≤ j).card =
        0 := by
      rw [card_eq_zero, filter_eq_empty_iff]
      rintro j hj ⟨-, hout⟩
      exact absurd (hin j ((hloop j).mpr (mem_Ico.mp hj))) (not_lt.mpr hout)
    have hsum := hcard hsame
    refine ⟨fun i hi => ?_, ?_, fun i hi => ?_⟩
    · rw [hbit]
      cases hclear : s.bitTest i with
      | true => simp
      | false => simpa [hclear] using hsame i hi hclear
    · rw [hfree, wsub_eq (by omega) hlt]
      omega
    · have := hin i hi
      unfold bitmapBytes
      omega

/-! ### The bounds -/

/-- When `pmm_reserve_range` is right. Where range and pool end below the end of the address space,
the range must not end below the pool. Otherwise nothing is marked, but for the first page of a
range that goes all the way round. -/
def ReserveCond (s : Pmm) (pa bytes : ℕ) : Prop :=
  if s.base + s.total * pmmPageSize < 2 ^ 64 ∧ pa + bytes + pmmPageSize ≤ 2 ^ 64 then
    s.total = 0 ∨ s.base < pa + bytes + pmmPageSize
  else
    (∀ i < s.total, s.bitTest i = false → s.Overlaps pa bytes i →
      s.base + s.total * pmmPageSize < 2 ^ 64 ∧ 2 ^ 64 < pa % pmmPageSize + bytes ∧
        s.base + i * pmmPageSize = pa / pmmPageSize * pmmPageSize) ∧
      (0 < s.total → s.base + s.total * pmmPageSize < 2 ^ 64 → 2 ^ 64 < pa % pmmPageSize + bytes →
        s.base ≤ pa / pmmPageSize * pmmPageSize + pmmPageSize)

/-- The pages that the loop gets to, by numbers. -/
theorem inLoop_iff (hpa : pa < 2 ^ 64) : s.InLoop pa bytes i ↔
    let first := pa / 4096 * 4096
    let last := (pa + bytes + 4095) % 2 ^ 64 / 4096 * 4096
    let limit := (s.base + s.total * 4096) % 2 ^ 64
    first < last ∧ max first s.base < limit ∧ (max first s.base + 2 ^ 64 - s.base) % 2 ^ 64 / 4096 ≤ i ∧
      i < (min last limit + 2 ^ 64 - s.base) % 2 ^ 64 / 4096 := by
  have hmax : ∀ a b : ℕ, (if a < b then b else a) = max a b := fun a b => by split_ifs <;> omega
  have hmin : ∀ a b : ℕ, (if b < a then b else a) = min a b := fun a b => by split_ifs <;> omega
  simp only [InLoop, reserveBounds, pageFloor_eq hpa,
    pageFloor_eq (Nat.mod_lt _ (Nat.two_pow_pos 64)), hmax, hmin, wsub, pmmPageSize, pmmPageShift,
      Nat.shiftRight_eq_div_pow, show pa + bytes + 4096 - 1 = pa + bytes + 4095 by omega,
    show 2 ^ 12 = 4096 by norm_num]
  by_cases hlast : (pa + bytes + 4095) % 2 ^ 64 / 4096 * 4096 ≤ pa / 4096 * 4096
  · simp only [if_pos hlast, Option.mem_def, reduceCtorEq, false_and, exists_false, not_lt.mpr hlast]
  · by_cases hlimit : (s.base + s.total * 4096) % 2 ^ 64 ≤ max (pa / 4096 * 4096) s.base
    · simp only [if_neg hlast, if_pos hlimit, Option.mem_def, reduceCtorEq, false_and, exists_false,
        not_lt.mpr hlimit, and_false]
    · simp only [if_neg hlast, if_neg hlimit, Option.mem_def, Option.some_inj, exists_eq_left',
        not_le.mp hlast, not_le.mp hlimit, true_and]

/-- Range and pool end below the end of the address space. -/
theorem Ok.loop_iff_below (h : s.Ok) (hpos : 0 < bytes) (hpool : s.base + s.total * 4096 < 2 ^ 64)
    (hrange : pa + bytes + 4096 ≤ 2 ^ 64) :
    ((∀ i, s.InLoop pa bytes i → i < s.total) ∧
      ∀ i < s.total, s.bitTest i = false → (s.InLoop pa bytes i ↔ s.Overlaps pa bytes i)) ↔
      s.total = 0 ∨ s.base < pa + bytes + 4096 := by
  have haligned := h.aligned
  simp only [inLoop_iff (show pa < 2 ^ 64 by omega), Overlaps, pmmPageSize] at haligned ⊢
  constructor
  · rintro ⟨hin, -⟩
    by_contra hno
    -- The range ends below the pool, and the loop gets to the page behind the pool.
    have := hin s.total
    omega
  · intro hcond
    refine ⟨fun i hi => ?_, fun i hi _ => ?_⟩
    · omega
    · omega

/-- The range is rounded up to the end of the address space or beyond. -/
theorem Ok.loop_iff_wrap (h : s.Ok) (hpa : pa < 2 ^ 64) (hbytes : bytes < 2 ^ 64)
    (hpool : s.base + s.total * 4096 < 2 ^ 64) (hrange : 2 ^ 64 < pa + bytes + 4096) :
    ((∀ i, s.InLoop pa bytes i → i < s.total) ∧
      ∀ i < s.total, s.bitTest i = false → (s.InLoop pa bytes i ↔ s.Overlaps pa bytes i)) ↔
      (∀ i < s.total, s.bitTest i = false → s.Overlaps pa bytes i →
        2 ^ 64 < pa % 4096 + bytes ∧ s.base + i * 4096 = pa / 4096 * 4096) ∧
      (0 < s.total → 2 ^ 64 < pa % 4096 + bytes → s.base ≤ pa / 4096 * 4096 + 4096) := by
  have haligned := h.aligned
  simp only [inLoop_iff hpa, Overlaps, pmmPageSize] at haligned ⊢
  constructor
  · rintro ⟨hin, hsame⟩
    refine ⟨fun i hi hclear hover => ?_, fun hpos hround => ?_⟩
    · have hloop := (hsame i hi hclear).mpr hover
      have hbehind := hin s.total
      omega
    · have hbehind := hin s.total
      omega
  · rintro ⟨hall, hround⟩
    refine ⟨fun i hi => ?_, fun i hi hclear => ⟨fun hloop => ?_, fun hover => ?_⟩⟩
    · omega
    · omega
    · have hfirst := hall i hi hclear hover
      omega

/-- **The bounds are right** just on this condition. -/
theorem Ok.loop_iff (h : s.Ok) (hpa : pa < 2 ^ 64) (hbytes : bytes < 2 ^ 64) (hpos : 0 < bytes) :
    ((∀ i, s.InLoop pa bytes i → i < s.total) ∧
      ∀ i < s.total, s.bitTest i = false → (s.InLoop pa bytes i ↔ s.Overlaps pa bytes i)) ↔
      s.ReserveCond pa bytes := by
  have hfits := h.fits
  unfold ReserveCond
  by_cases hpool : s.base + s.total * pmmPageSize < 2 ^ 64
  · by_cases hrange : pa + bytes + pmmPageSize ≤ 2 ^ 64
    · rw [if_pos ⟨hpool, hrange⟩]
      exact h.loop_iff_below hpos hpool hrange
    · rw [if_neg fun hboth => hrange hboth.2]
      simp only [hpool, true_and, forall_const]
      exact h.loop_iff_wrap hpa hbytes hpool (not_le.mp hrange)
  · -- The pool ends at the end of the address space, and the function always returns at once.
    have hnone : ∀ i, ¬ s.InLoop pa bytes i := fun i hi => by
      rw [inLoop_iff hpa] at hi
      simp only [pmmPageSize] at hpool hfits
      dsimp only at hi
      omega
    rw [if_neg fun hboth => hpool hboth.1]
    simp only [hnone, hpool, false_iff, false_and, false_imp_iff, implies_true, true_and, and_true]

/-- **Reserving a range.** For every range of 64 bits and every pool, `pmm_reserve_range` marks the
pages of the range and no others, takes those that were free off the count, and keeps to the bitmap,
just on this condition. -/
theorem reservesExactly_iff (h : s.Ok) (hpa : pa < 2 ^ 64) (hbytes : bytes < 2 ^ 64) (hpos : 0 < bytes) :
    s.ReservesExactly pa bytes ↔ s.ReserveCond pa bytes :=
  (h.reservesExactly_iff_loop pa bytes).trans (h.loop_iff hpa hbytes hpos)

/-- **The pages of the range are pinned** from then on. -/
theorem Tracks.reserve {pinned : ℕ → Prop} (h : s.Tracks pinned []) (hpa : pa < 2 ^ 64)
    (hbytes : bytes < 2 ^ 64) (hpos : 0 < bytes) (hcond : s.ReserveCond pa bytes) :
    (s.pmmReserveRange pa bytes).Tracks (fun i => pinned i ∨ s.Overlaps pa bytes i) [] := by
  obtain ⟨hin, hsame⟩ := (h.ok.loop_iff hpa hbytes hpos).mpr hcond
  obtain ⟨a, n, -, hloop, heq⟩ := exists_stretch h.ok.free_lt pa bytes
  have hbit : ∀ i, bitAt (setRange s.bitmap a n) i = (s.bitTest i || decide (a ≤ i ∧ i < a + n)) :=
    bitAt_setRange (by norm_num)
  have hclear : s.clearIn a n = (clearSet s.bitmap s.total ∩ Finset.Ico a (a + n)).card := by
    unfold clearIn
    congr 1
    ext j
    simp only [mem_filter, mem_inter, mem_clearSet, mem_Ico]
    have hj : a ≤ j ∧ j < a + n → j < s.total := fun hj => hin j ((hloop j).mpr hj)
    exact ⟨fun ⟨hj', hc⟩ => ⟨⟨hj hj', hc⟩, hj'⟩, fun ⟨⟨_, hc⟩, hj'⟩ => ⟨hj', hc⟩⟩
  rw [heq]
  refine ⟨⟨h.ok.aligned, h.ok.fits, h.ok.reserved_le, h.ok.reserved_pos, h.ok.bitmap_in,
    fun i hi => ?_, fun i hi hi' => ?_, ?_⟩, fun i hi => ?_, by simp, List.Pairwise.nil, by simp⟩
  · exact (hbit i).trans (by rw [h.ok.reserved_set i hi, Bool.true_or])
  · refine (hbit i).trans ?_
    rw [h.ok.padding i hi hi', decide_eq_false fun hstretch => not_lt.mpr hi
      (hin i ((hloop i).mpr hstretch))]
    rfl
  · have hle : s.clearIn a n ≤ s.free := by
      rw [hclear, h.ok.counted]
      exact card_le_card inter_subset_left
    change wsub s.free (s.clearIn a n) = clearCount (setRange s.bitmap a n) s.total
    rw [wsub_eq hle h.ok.free_lt, clearCount, clearSet_setRange (by norm_num), card_sdiff, hclear,
      h.ok.counted, inter_comm]
    rfl
  · change bitAt (setRange s.bitmap a n) i = true ↔ i < s.reserved ∨ _
    have hused := h.used i hi
    simp only [List.not_mem_nil, false_and, exists_false, or_false] at hused ⊢
    rw [hbit, Bool.or_eq_true, decide_eq_true_iff, ← hloop, ← or_assoc, ← hused]
    cases hclear : s.bitTest i with
    | true => simp
    | false => simpa using hsame i hi hclear

/-- Four pages at the start of the memory of the machine. -/
def ramStart : Region where
  base := 0x40000000
  size := 16384
  base_lt := by decide
  size_lt := by decide
  fits := by decide

/-- The pool of these pages, over memory that is zero. -/
def ramPool : Pmm := pmmInit (fun _ => 0#8) ramStart.base ramStart.size

theorem ramPool_eq : ramPool.base = 0x40000000 ∧ ramPool.total = 4 := by decide +kernel

theorem reservesExactly_last_page : ramPool.ReservesExactly 0x40003800 16 :=
  (reservesExactly_iff (pmmInit_ok _ ramStart) (by norm_num) (by norm_num) (by norm_num)).mpr (by
    obtain ⟨hbase, htotal⟩ := ramPool_eq
    change ramPool.ReserveCond 0x40003800 16
    unfold ReserveCond
    rw [hbase, htotal]
    norm_num [pmmPageSize])

/-- The page of the serial port is below the pool. The loop does not return before it has gone
through the bitmap and on through the memory behind it. -/
theorem reserve_below_pool : ¬ ramPool.ReservesExactly 0x09000000 0x1000 ∧ ramPool.bitmapBytes = 1 ∧
    ∀ i < 2 ^ 50, ramPool.InLoop 0x09000000 0x1000 i := by
  obtain ⟨hbase, htotal⟩ := ramPool_eq
  have hloop : ∀ i < 2 ^ 50, ramPool.InLoop 0x09000000 0x1000 i := fun i hi => by
    rw [inLoop_iff (by norm_num), hbase, htotal]
    norm_num
    omega
  refine ⟨fun hright => ?_, by rw [bitmapBytes, htotal], hloop⟩
  have hin := hright.inside 100 (hloop 100 (by norm_num))
  rw [bitmapBytes, htotal] at hin
  omega

end Pmm

end Nonux.Core
