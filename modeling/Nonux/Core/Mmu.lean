import Nonux.Core.KernelMem
import Nonux.Core.PmmReserve

/-!
# Address spaces (`mmu.c`)

The kernel has a map of its own: two gigabytes in blocks of 2 MiB, each at its own address, and none
of them for user mode but one. A process has a copy of the part for memory, in which the four blocks
of the user window are replaced by blocks of its own. The two tables and the memory for the window
come from the kernel heap, and the window is aligned by hand within a request that is larger by one
block.

## What is proved

`walk` is what the hardware makes of the tables. In the address space of a process it gives the
memory of the process in the window, and everywhere else what it gives in the map of the kernel
(`walk_space`).
-/

namespace Nonux.Core

open Nonux.Lib Nonux.Lib.BitArray Function

/-! ### Descriptors -/

/-- An entry of a translation table. -/
abbrev Desc := BitVec 64

/-- `DESC_VALID` -/
def descValid : Desc := 1#64 <<< 0

/-- `DESC_TABLE` -/
def descTable : Desc := 1#64 <<< 1

/-- `DESC_ATTR_IDX` -/
def descAttrIdx (n : ℕ) : Desc := BitVec.ofNat 64 (n &&& 7) <<< 2

/-- `DESC_AP_EL1_RW` -/
def descApEl1Rw : Desc := 0#64 <<< 6

/-- `DESC_AP_USER_RW` -/
def descApUserRw : Desc := 1#64 <<< 6

/-- `DESC_SH_INNER` -/
def descShInner : Desc := 3#64 <<< 8

/-- `DESC_SH_NONE` -/
def descShNone : Desc := 0#64 <<< 8

/-- `DESC_AF` -/
def descAf : Desc := 1#64 <<< 10

/-- `DESC_PXN` -/
def descPxn : Desc := 1#64 <<< 53

/-- `DESC_UXN` -/
def descUxn : Desc := 1#64 <<< 54

/-- `ATTR_IDX_DEVICE` -/
def attrIdxDevice : ℕ := 0

/-- `ATTR_IDX_NORMAL` -/
def attrIdxNormal : ℕ := 1

/-- The bits of `device_block` beside the address. -/
def deviceBits : Desc :=
  descValid ||| descAttrIdx attrIdxDevice ||| descApEl1Rw ||| descShNone ||| descAf ||| descPxn |||
    descUxn

/-- The bits of `normal_block`. -/
def normalBits : Desc :=
  descValid ||| descAttrIdx attrIdxNormal ||| descApEl1Rw ||| descShInner ||| descAf ||| descUxn

/-- The bits of `user_block`. -/
def userBits : Desc :=
  descValid ||| descAttrIdx attrIdxNormal ||| descApUserRw ||| descShInner ||| descAf

/-- `device_block` -/
def deviceBlock (pa : ℕ) : Desc := BitVec.ofNat 64 pa ||| deviceBits

/-- `normal_block` -/
def normalBlock (pa : ℕ) : Desc := BitVec.ofNat 64 pa ||| normalBits

/-- `user_block` -/
def userBlock (pa : ℕ) : Desc := BitVec.ofNat 64 pa ||| userBits

/-- An entry for a table. -/
def tableDesc (pa : ℕ) : Desc := BitVec.ofNat 64 pa ||| (descValid ||| descTable)

/-! ### What the hardware makes of them -/

/-- The address that an entry for a block has: bits 21 to 47. -/
def blockOut (d : Desc) : ℕ := (d.extractLsb' 21 27).toNat * 2 ^ 21

/-- The address that an entry for a table has: bits 12 to 47. -/
def tableOut (d : Desc) : ℕ := (d.extractLsb' 12 36).toNat * 2 ^ 12

/-- User mode can use a block: its access bit is set, or it may run what is there. -/
def el0 (d : Desc) : Bool := d.getLsbD 6 || !d.getLsbD 54

/-- The walk from a root, for addresses of 39 bits: 512 entries for 1 GiB each, and 512 for 2 MiB.
There is no third level here. -/
def walk (tables : ℕ → ℕ → Desc) (root va : ℕ) : Option (ℕ × Desc) :=
  let e := tables root (va / 2 ^ 30)
  if e.getLsbD 0 && e.getLsbD 1 then
    let d := tables (tableOut e) (va / 2 ^ 21 % 512)
    if d.getLsbD 0 && !d.getLsbD 1 then some (blockOut d + va % 2 ^ 21, d) else none
  else none

section Bits

variable {pa i k : ℕ} {bits : Desc}

/-- The low bits of an entry are not those of the address. -/
theorem getLsbD_low (haligned : pa % 2 ^ k = 0) (hi : i < k) :
    (BitVec.ofNat 64 pa ||| bits).getLsbD i = bits.getLsbD i := by
  have hbit : pa.testBit i = false := by
    obtain ⟨m, rfl⟩ := Nat.dvd_of_mod_eq_zero haligned
    rw [Nat.testBit_two_pow_mul, decide_eq_false (by omega), Bool.false_and]
  rw [BitVec.getLsbD_or, BitVec.getLsbD_ofNat, hbit, Bool.and_false, Bool.false_or]

/-- Nor are the high ones. -/
theorem getLsbD_high (hpa : pa < 2 ^ 48) (hi : 48 ≤ i) :
    (BitVec.ofNat 64 pa ||| bits).getLsbD i = bits.getLsbD i := by
  have hbit : pa.testBit i = false :=
    Nat.testBit_lt_two_pow (hpa.trans_le (Nat.pow_le_pow_right (by norm_num) hi))
  rw [BitVec.getLsbD_or, BitVec.getLsbD_ofNat, hbit, Bool.and_false, Bool.false_or]

/-- An entry has the address that was put into it. -/
theorem extractLsb'_or_eq {m : ℕ} (haligned : pa % 2 ^ k = 0) (hpa : pa < 2 ^ 48) (hm : k + m = 48)
    (hbits : bits.extractLsb' k m = 0#m) :
    ((BitVec.ofNat 64 pa ||| bits).extractLsb' k m).toNat * 2 ^ k = pa := by
  have hlt : pa / 2 ^ k < 2 ^ m := Nat.div_lt_of_lt_mul (by rwa [← Nat.pow_add, hm])
  rw [BitVec.extractLsb'_or, hbits, BitVec.or_zero, BitVec.extractLsb'_toNat, BitVec.toNat_ofNat,
    Nat.mod_eq_of_lt (hpa.trans (by norm_num)), Nat.shiftRight_eq_div_pow, Nat.mod_eq_of_lt hlt]
  exact Nat.div_mul_cancel (Nat.dvd_of_mod_eq_zero haligned)

theorem tableOut_tableDesc (haligned : pa % 2 ^ 12 = 0) (hpa : pa < 2 ^ 48) :
    tableOut (tableDesc pa) = pa :=
  extractLsb'_or_eq haligned hpa (by norm_num) (by decide)

theorem tableDesc_bits (haligned : pa % 2 ^ 12 = 0) :
    (tableDesc pa).getLsbD 0 = true ∧ (tableDesc pa).getLsbD 1 = true :=
  ⟨(getLsbD_low haligned (by norm_num)).trans (by decide),
    (getLsbD_low haligned (by norm_num)).trans (by decide)⟩

/-- What the walk and `el0` read of an entry for a block. -/
structure IsBlock (d : Desc) (pa : ℕ) (user : Bool) : Prop where
  valid : d.getLsbD 0 = true
  block : d.getLsbD 1 = false
  out : blockOut d = pa
  el0_eq : el0 d = user

theorem isBlock_or {user : Bool} (haligned : pa % 2 ^ 21 = 0) (hpa : pa < 2 ^ 48)
    (hbits : bits.getLsbD 0 = true ∧ bits.getLsbD 1 = false ∧ bits.extractLsb' 21 27 = 0#27 ∧
      el0 bits = user) :
    IsBlock (BitVec.ofNat 64 pa ||| bits) pa user where
  valid := (getLsbD_low haligned (by norm_num)).trans hbits.1
  block := (getLsbD_low haligned (by norm_num)).trans hbits.2.1
  out := extractLsb'_or_eq haligned hpa (by norm_num) hbits.2.2.1
  el0_eq := by
    rw [el0, getLsbD_low haligned (by norm_num), getLsbD_high hpa (by norm_num)]
    exact hbits.2.2.2

end Bits

/-! ### The map of the kernel -/

/-- `RAM_BASE` -/
def ramBase : ℕ := 0x40000000

/-- `RAM_END` -/
def ramEnd : ℕ := 0x80000000

/-- `USER_WINDOW_INDEX` -/
def userWindowIndex : ℕ := 64

/-- `USER_WINDOW_BLOCKS` -/
def userWindowBlocks : ℕ := 4

/-- `USER_BLOCK_SIZE` -/
def userBlockSize : ℕ := 2 ^ 21

/-- `USER_WINDOW_VA` -/
def userWindowVa : ℕ := ramBase + userWindowIndex * userBlockSize

/-- `USER_WINDOW_SIZE` -/
def userWindowSize : ℕ := userWindowBlocks * userBlockSize

/-- Where the linker has put the tables of the kernel, and where free memory begins. -/
structure Image where
  l1Table : ℕ
  l2MmioTable : ℕ
  l2RamTable : ℕ
  freeMemStart : ℕ
  nodup : [l1Table, l2MmioTable, l2RamTable].Nodup
  aligned : ∀ t ∈ [l1Table, l2MmioTable, l2RamTable], t % 2 ^ 12 = 0
  inside : ∀ t ∈ [l1Table, l2MmioTable, l2RamTable], t + 4096 ≤ freeMemStart
  free_le : freeMemStart ≤ userWindowVa

/-- The entries of an `l1` table. -/
def l1Entries (mmio ram : ℕ) (i : ℕ) : Desc :=
  if i = 0 then tableDesc mmio else if i = 1 then tableDesc ram else 0

/-- `l2_mmio_table` -/
def l2MmioEntries (i : ℕ) : Desc := if i = 0 then 0 else deviceBlock (i * 2 ^ 21)

/-- `l2_ram_table` -/
def l2RamEntries (i : ℕ) : Desc :=
  if i = userWindowIndex then userBlock (ramBase + userWindowIndex * 2 ^ 21)
    else normalBlock (ramBase + i * 2 ^ 21)

/-- The tables that `mmu_init` makes. -/
def mmuInit (k : Image) (old : ℕ → ℕ → Desc) : ℕ → ℕ → Desc :=
  update (update (update old k.l2MmioTable l2MmioEntries) k.l2RamTable l2RamEntries)
    k.l1Table (l1Entries k.l2MmioTable k.l2RamTable)

/-- The `l2` table of a process. -/
def l2Process (l2Ram : ℕ → Desc) (userPa : ℕ) (i : ℕ) : Desc :=
  if userWindowIndex ≤ i ∧ i < userWindowIndex + userWindowBlocks then
    userBlock (userPa + (i - userWindowIndex) * 2 ^ 21)
  else l2Ram i

/-! ### Address spaces -/

/-- `struct mmu_address_space` -/
structure AddressSpace where
  l1RootPa : ℕ := 0
  l1Page : ℕ := 0
  l2RamPage : ℕ := 0
  userBacking : ℕ := 0
  userBackingRaw : ℕ := 0

/-- `MMU_MAX_ADDRESS_SPACES` -/
def mmuMaxAddressSpaces : ℕ := 128

/-- The memory of the kernel, its table of address spaces, and the translation tables, by the
addresses of their pages. -/
structure Mmu where
  kmem : KernelMem
  tables : ℕ → ℕ → Desc
  spaces : List AddressSpace := List.replicate mmuMaxAddressSpaces {}

namespace Mmu

/-- `find_space_by_root` -/
def findSpaceByRoot (x : Mmu) (root : ℕ) : Option ℕ := x.spaces.findIdx? fun s => s.l1RootPa == root

/-- `alloc_space_slot` -/
def allocSpaceSlot (x : Mmu) : Option ℕ := x.spaces.findIdx? fun s => s.l1RootPa == 0

/-- `user_pa`: where the window begins in the memory that was got for it. -/
def userPa (raw : ℕ) : ℕ := ((raw + userBlockSize - 1) % 2 ^ 64) &&& (2 ^ 64 - userBlockSize)

/-- The `l1` table of a process is written, -/
def writeL1 (k : Image) (tables : ℕ → ℕ → Desc) (l1 l2r : ℕ) : ℕ → ℕ → Desc :=
  update tables l1 (l1Entries k.l2MmioTable l2r)

/-- and then its `l2` table. -/
def writeL2 (k : Image) (tables : ℕ → ℕ → Desc) (l2r userPa : ℕ) : ℕ → ℕ → Desc :=
  update tables l2r (l2Process (tables k.l2RamTable) userPa)

/-- The tables of a process, and the memory of its window, when there is memory for them. -/
def populate (k : Image) (x : Mmu) (slot l1 l2r raw : ℕ) : Mmu where
  kmem := x.kmem.setMem (memset x.kmem.heap.mem (userPa raw) userWindowSize)
  tables := writeL2 k (writeL1 k x.tables l1 l2r) l2r (userPa raw)
  spaces := x.spaces.set slot
    { l1RootPa := l1, l1Page := l1, l2RamPage := l2r, userBacking := userPa raw, userBackingRaw := raw }

/-- `mmu_create_address_space` -/
def mmuCreateAddressSpace (k : Image) (x : Mmu) : Mmu × ℕ :=
  match x.allocSpaceSlot with
  | none => (x, 0)
  | some slot =>
    let l1 := (x.kmem.heap.malloc 4096).2
    let m1 := x.kmem.step (.malloc 4096)
    let l2r := (m1.heap.malloc 4096).2
    let m2 := m1.step (.malloc 4096)
    if l1 = 0 ∨ l2r = 0 then
      let m3 := if l1 ≠ 0 then m2.step (.free l1) else m2
      let m4 := if l2r ≠ 0 then m3.step (.free l2r) else m3
      ({ x with kmem := m4 }, 0)
    else
      let raw := (m2.heap.malloc (userWindowSize + userBlockSize)).2
      let m3 := m2.step (.malloc (userWindowSize + userBlockSize))
      if raw = 0 then ({ x with kmem := (m3.step (.free l1)).step (.free l2r) }, 0)
      else (populate k { x with kmem := m3 } slot l1 l2r raw, l1)

/-- `mmu_destroy_address_space` -/
def mmuDestroyAddressSpace (k : Image) (x : Mmu) (l1Root : ℕ) : Mmu :=
  if l1Root = 0 then x
  else if l1Root = k.l1Table then x
  else
    match x.findSpaceByRoot l1Root with
    | none => x
    | some slot =>
      let s := x.spaces.getD slot {}
      { x with
        kmem := ((x.kmem.step (.free s.l1Page)).step (.free s.l2RamPage)).step (.free s.userBackingRaw)
        spaces := x.spaces.set slot {} }

end Mmu

/-! ### Walks -/

section Walks

variable {tables : ℕ → ℕ → Desc} {root ram va pa : ℕ} {d : Desc}

/-- A walk through the two levels. -/
theorem walk_eq_of_l1 {mmio i : ℕ} {l2 : ℕ → Desc} (hroot : tables root = l1Entries mmio ram)
    (hi : va / 2 ^ 30 = i) {t : ℕ} (ht : i = 0 ∧ t = mmio ∨ i = 1 ∧ t = ram)
    (haligned : t % 2 ^ 12 = 0) (hlt : t < 2 ^ 48) (hl2 : tables t = l2) : walk tables root va =
      if (l2 (va / 2 ^ 21 % 512)).getLsbD 0 && !(l2 (va / 2 ^ 21 % 512)).getLsbD 1 then
        some (blockOut (l2 (va / 2 ^ 21 % 512)) + va % 2 ^ 21, l2 (va / 2 ^ 21 % 512))
      else none := by
  have hentry : tables root (va / 2 ^ 30) = tableDesc t := by
    rw [hroot, hi, l1Entries]
    rcases ht with ⟨rfl, rfl⟩ | ⟨rfl, rfl⟩
    · rfl
    · rfl
  obtain ⟨hvalid, htable⟩ := tableDesc_bits haligned
  unfold walk
  simp only [hentry, hvalid, htable, tableOut_tableDesc haligned hlt, hl2, Bool.and_self, if_true]

/-- Above two gigabytes there is nothing. -/
theorem walk_none {mmio : ℕ} (hroot : tables root = l1Entries mmio ram) (hva : 2 ^ 31 ≤ va) :
    walk tables root va = none := by
  have hi : 2 ≤ va / 2 ^ 30 := by omega
  have hentry : tables root (va / 2 ^ 30) = 0 := by
    rw [hroot, l1Entries, if_neg (by omega), if_neg (by omega)]
  unfold walk
  rw [hentry]
  rfl

/-- A block that is mapped at its own address. -/
theorem walk_block {l2 : ℕ → Desc} {user : Bool} {out : ℕ}
    (hblock : IsBlock (l2 (va / 2 ^ 21 % 512)) out user) :
    (if (l2 (va / 2 ^ 21 % 512)).getLsbD 0 && !(l2 (va / 2 ^ 21 % 512)).getLsbD 1 then
        some (blockOut (l2 (va / 2 ^ 21 % 512)) + va % 2 ^ 21, l2 (va / 2 ^ 21 % 512))
      else none) = some (out + va % 2 ^ 21, l2 (va / 2 ^ 21 % 512)) := by
  rw [hblock.valid, hblock.block, hblock.out]
  rfl

/-- The window, as numbers. -/
theorem window_eq : userWindowVa = 0x48000000 ∧ userWindowSize = 0x800000 ∧
    userWindowVa = 2 ^ 30 + 64 * 2 ^ 21 := by
  decide

/-- What the translation tables of a process hold. -/
structure TablesOk (k : Image) (tables : ℕ → ℕ → Desc) : Prop where
  l1 : tables k.l1Table = l1Entries k.l2MmioTable k.l2RamTable
  mmio : tables k.l2MmioTable = l2MmioEntries
  ram : tables k.l2RamTable = l2RamEntries

/-- An address space is as it was made. -/
structure SpaceOk (k : Image) (tables : ℕ → ℕ → Desc) (s : AddressSpace) : Prop where
  root_eq : s.l1RootPa = s.l1Page
  l1 : tables s.l1Page = l1Entries k.l2MmioTable s.l2RamPage
  l2 : tables s.l2RamPage = l2Process l2RamEntries s.userBacking
  aligned : s.userBacking % 2 ^ 21 = 0
  low : s.userBackingRaw ≤ s.userBacking
  high : s.userBacking + userWindowSize ≤ s.userBackingRaw + (userWindowSize + userBlockSize)

variable {k : Image} {s : AddressSpace}

theorem Image.table_ok (k : Image) {t : ℕ} (ht : t ∈ [k.l1Table, k.l2MmioTable, k.l2RamTable]) :
    t % 2 ^ 12 = 0 ∧ t < 2 ^ 48 := by
  have hfree := k.free_le
  have hin := k.inside t ht
  have := window_eq.1
  exact ⟨k.aligned t ht, by omega⟩

/-- **A process and the kernel see the same** outside of the window, each address at itself and not
for user mode; and in the window a process sees its own memory. -/
theorem walk_space (htables : TablesOk k tables) (hspace : SpaceOk k tables s)
    (hpage : s.l2RamPage % 2 ^ 12 = 0) (hlow : s.l2RamPage < 2 ^ 48)
    (hbacking : s.userBacking + userWindowSize ≤ 2 ^ 48)
    (hwalk : walk tables s.l1RootPa va = some (pa, d)) :
    (userWindowVa ≤ va ∧ va < userWindowVa + userWindowSize ∧
      pa = s.userBacking + (va - userWindowVa) ∧ el0 d = true) ∨
      pa = va ∧ el0 d = false ∧ walk tables k.l1Table va = some (pa, d) := by
  obtain ⟨hva, hsize, -⟩ := window_eq
  have hroot : tables s.l1RootPa = l1Entries k.l2MmioTable s.l2RamPage := hspace.root_eq ▸ hspace.l1
  obtain ⟨hmmio, hmmio'⟩ := k.table_ok (t := k.l2MmioTable) (by simp)
  obtain ⟨hram, hram'⟩ := k.table_ok (t := k.l2RamTable) (by simp)
  rcases Nat.lt_or_ge va (2 ^ 31) with hlt | hge
  · rcases Nat.lt_or_ge va (2 ^ 30) with hdev | hmem
    · -- Devices: both have the same table.
      have hi : va / 2 ^ 30 = 0 := by omega
      have hkernel := walk_eq_of_l1 htables.l1 hi (.inl ⟨rfl, rfl⟩) hmmio hmmio' htables.mmio
      rw [walk_eq_of_l1 hroot hi (.inl ⟨rfl, rfl⟩) hmmio hmmio' htables.mmio, ← hkernel] at hwalk
      refine .inr ?_
      by_cases hzero : va / 2 ^ 21 % 512 = 0
      · rw [hkernel, hzero] at hwalk
        cases hwalk
      · have hblock : IsBlock (l2MmioEntries (va / 2 ^ 21 % 512)) (va / 2 ^ 21 % 512 * 2 ^ 21)
            false := by
          rw [l2MmioEntries, if_neg hzero]
          exact isBlock_or (by omega) (by omega) (by decide)
        have hout := hwalk
        rw [hkernel, walk_block hblock, Option.some_inj, Prod.mk.injEq] at hout
        refine ⟨?_, hout.2 ▸ hblock.el0_eq, hwalk⟩
        omega
    · have hi : va / 2 ^ 30 = 1 := by omega
      rw [walk_eq_of_l1 hroot hi (.inr ⟨rfl, rfl⟩) hpage hlow hspace.l2] at hwalk
      have hkernel := walk_eq_of_l1 htables.l1 hi (.inr ⟨rfl, rfl⟩) hram hram' htables.ram
      by_cases hwin : userWindowIndex ≤ va / 2 ^ 21 % 512 ∧
        va / 2 ^ 21 % 512 < userWindowIndex + userWindowBlocks
      · -- The window.
        have hblock : IsBlock (l2Process l2RamEntries s.userBacking (va / 2 ^ 21 % 512))
            (s.userBacking + (va / 2 ^ 21 % 512 - userWindowIndex) * 2 ^ 21) true := by
          have haligned := hspace.aligned
          rw [l2Process, if_pos hwin]
          simp only [userWindowIndex, userWindowBlocks] at hwin ⊢
          exact isBlock_or (by omega) (by omega) (by decide)
        rw [walk_block hblock, Option.some_inj, Prod.mk.injEq] at hwalk
        simp only [userWindowIndex, userWindowBlocks] at hwin hwalk
        refine .inl ⟨by omega, by omega, by omega, hwalk.2 ▸ hblock.el0_eq⟩
      · -- The rest of memory.
        have hsame : l2Process l2RamEntries s.userBacking (va / 2 ^ 21 % 512) = l2RamEntries
            (va / 2 ^ 21 % 512) := by
          rw [l2Process, if_neg hwin]
        simp only [userWindowIndex, userWindowBlocks] at hwin
        have hblock : IsBlock (l2RamEntries (va / 2 ^ 21 % 512))
            (ramBase + va / 2 ^ 21 % 512 * 2 ^ 21) false := by
          rw [l2RamEntries, if_neg (by simp only [userWindowIndex]; omega)]
          simp only [ramBase]
          exact isBlock_or (by omega) (by omega) (by decide)
        rw [hsame, ← hkernel] at hwalk
        have hout := hwalk
        rw [hkernel, walk_block hblock, Option.some_inj, Prod.mk.injEq] at hout
        refine .inr ⟨?_, hout.2 ▸ hblock.el0_eq, hwalk⟩
        simp only [ramBase] at hout
        omega
  · rw [walk_none hroot hge] at hwalk
    cases hwalk

/-- User mode has the start of the window. -/
theorem walk_window (hspace : SpaceOk k tables s) (hpage : s.l2RamPage % 2 ^ 12 = 0)
    (hlow : s.l2RamPage < 2 ^ 48) (hbacking : s.userBacking + userWindowSize ≤ 2 ^ 48) :
    ∃ d, walk tables s.l1RootPa userWindowVa = some (s.userBacking, d) ∧ el0 d = true := by
  have hroot : tables s.l1RootPa = l1Entries k.l2MmioTable s.l2RamPage := hspace.root_eq ▸ hspace.l1
  have hsize := window_eq.2.1
  have hentry : l2Process l2RamEntries s.userBacking (userWindowVa / 2 ^ 21 % 512) = userBlock
      s.userBacking := by
    rw [show userWindowVa / 2 ^ 21 % 512 = userWindowIndex
      by decide, l2Process, if_pos (by decide), Nat.sub_self, Nat.zero_mul, Nat.add_zero]
  have hblock : IsBlock (l2Process l2RamEntries s.userBacking (userWindowVa / 2 ^ 21 % 512))
      s.userBacking true := by
    rw [hentry]
    exact isBlock_or hspace.aligned (by omega) (by decide)
  refine ⟨_, ?_, hblock.el0_eq⟩
  rw [walk_eq_of_l1 hroot (show userWindowVa / 2 ^ 30 = 1 by decide) (.inr ⟨rfl, rfl⟩) hpage hlow
    hspace.l2, walk_block hblock, show userWindowVa % 2 ^ 21 = 0 by decide, Nat.add_zero]

end Walks

end Nonux.Core
