import Nonux.Framework.Abi
import Nonux.Lib.Count
import Nonux.Lib.Loop

/-!
# Handle tables (`framework/handle.c`)

A process reaches every kernel object through a **handle**: a 32-bit word that
packs the index of an entry of the process's table, plus one, into its low 8 bits
and the low 24 bits of that entry's generation above them. An entry keeps a full
32-bit generation, which a close advances, so that handles to the entry's earlier
occupants stop resolving.

## The model

The kernel objects a handle can name (`Obj`) and the component slots it can
target (`Slot`) are parameters. Tables are values: a writer takes a table and
returns the new one, and a call that fails returns an error code and no table,
which is how the C functions behave (they test everything before they store).
The words are `UInt32` with C's shifts and masks.

## What is proved

* `decodeIndex_encodeHandle`, `decodeGeneration_encodeHandle_iff`: the index always
  survives the encoding, the generation only when it fits in 24 bits.
* One lemma for each writer of a table, saying which entry it stores to.
* `fresh_handle_usable_iff`: a handle that was just returned can be used exactly when
  the entry it was taken from has a generation below `2 ^ 24`.
-/

namespace Nonux.Framework

open Nonux.Lib Function

universe u v

/-! ### Entries and tables -/

/-- `enum nx_handle_type`. -/
inductive HandleType where
  | invalid
  | channel
  | vmo
  | process
  | thread
  | irq
  | dir
  | resource
  | config
  deriving DecidableEq, Repr

/-- `nx_handle_t`. -/
abbrev Handle := UInt32

/-- `NX_HANDLE_INVALID`. -/
def nxHandleInvalid : Handle := 0

/-- `NX_HANDLE_TABLE_CAPACITY`. -/
def nxHandleTableCapacity : ℕ := 64

/-- The index of an entry. -/
abbrev EntryIdx := Fin 64

/-- For entries written as numerals. -/
instance instNeZeroCapacity : NeZero 64 := ⟨by decide⟩

/-- `NX_RIGHT_*`. -/
def nxRightRead : UInt32 := 1
@[inherit_doc nxRightRead] def nxRightWrite : UInt32 := 2
@[inherit_doc nxRightRead] def nxRightTransfer : UInt32 := 4
@[inherit_doc nxRightRead] def nxRightSeek : UInt32 := 128

/-- The union `{ void *object; uint32_t id; }` of an entry. An id is stored into a
word that is zero (every close clears the whole word), so the word is a pointer
or an id and the null pointer is the id 0. -/
inductive ObjWord (Obj : Type u) where
  | ptr (o : Obj)
  | id (n : UInt32)
  deriving DecidableEq, Repr

/-- `NULL`. -/
def ObjWord.null {Obj : Type u} : ObjWord Obj := .id 0

/-- `struct nx_handle_entry`. -/
@[ext]
structure HandleEntry (Obj : Type u) (Slot : Type v) where
  type : HandleType := .invalid
  rights : UInt32 := 0
  object : ObjWord Obj := .null
  generation : UInt32 := 0
  target : Option Slot := none
  deriving DecidableEq, Repr

/-- `struct nx_handle_table`. A fresh table is one in zeroed memory. -/
@[ext]
structure HandleTable (Obj : Type u) (Slot : Type v) where
  entries : EntryIdx → HandleEntry Obj Slot := fun _ => {}
  count : ℕ := 0

variable {Obj : Type u} {Slot : Type v}

/-- The entry is in use. -/
def HandleEntry.Live (e : HandleEntry Obj Slot) : Prop := e.type ≠ .invalid

instance (e : HandleEntry Obj Slot) : Decidable e.Live :=
  inferInstanceAs (Decidable (e.type ≠ .invalid))

/-- What a close leaves of an entry: everything cleared, the generation advanced. -/
def HandleEntry.closed (e : HandleEntry Obj Slot) : HandleEntry Obj Slot :=
  { generation := e.generation + 1 }

@[simp] theorem HandleEntry.not_live_closed (e : HandleEntry Obj Slot) : ¬ e.closed.Live := by
  simp [HandleEntry.closed, HandleEntry.Live]

namespace HandleTable

/-- Store an entry. -/
def set (t : HandleTable Obj Slot) (i : EntryIdx) (e : HandleEntry Obj Slot) : HandleTable Obj Slot :=
  { t with entries := update t.entries i e }

/-- The stores of a close: the entry is cleared and the table counts one less. -/
def release (t : HandleTable Obj Slot) (i : EntryIdx) : HandleTable Obj Slot :=
  { entries := update t.entries i (t.entries i).closed, count := t.count - 1 }

/-- The stores of an allocation: the entry is filled and the table counts one more. -/
def occupy (t : HandleTable Obj Slot) (i : EntryIdx) (e : HandleEntry Obj Slot) : HandleTable Obj Slot :=
  { entries := update t.entries i e, count := t.count + 1 }

/-- The entry at which an allocation's scan from the bottom stops. -/
def firstFree (t : HandleTable Obj Slot) : Option EntryIdx :=
  (List.finRange 64).find? fun i => decide ((t.entries i).type = .invalid)

end HandleTable

/-! ### The encoding -/

/-- `encode_handle`. -/
def encodeHandle (generation : UInt32) (index : EntryIdx) : Handle :=
  (generation <<< 8) ||| UInt32.ofNat (index + 1)

theorem decodeIndex_bound {enc : UInt32} (h : ¬ (enc = 0 ∨ enc > 64)) : enc.toNat - 1 < 64 := by
  rw [not_or, gt_iff_lt, UInt32.not_lt, UInt32.le_iff_toNat_le] at h
  have : (64 : UInt32).toNat = 64 := rfl
  omega

/-- `decode_index`. -/
def decodeIndex (h : Handle) : Option EntryIdx :=
  if h = nxHandleInvalid then none
  else
    let enc := h &&& 0xff
    if hb : enc = 0 ∨ enc > 64 then none else some ⟨enc.toNat - 1, decodeIndex_bound hb⟩

/-- `decode_generation`. -/
def decodeGeneration (h : Handle) : UInt32 := h >>> 8

theorem toNat_encodeHandle (g : UInt32) (i : EntryIdx) :
    (encodeHandle g i).toNat = g.toNat % 2 ^ 24 * 256 + (i + 1) := by
  have hi := i.isLt
  have hidx : (UInt32.ofNat (i + 1)).toNat = i + 1 := by
    rw [UInt32.toNat_ofNat']; exact Nat.mod_eq_of_lt (by omega)
  have hshift : (g <<< 8).toNat = g.toNat % 2 ^ 24 * 2 ^ 8 := by
    rw [UInt32.toNat_shiftLeft, show (8 : UInt32).toNat % 32 = 8 from rfl, Nat.shiftLeft_eq]
    omega
  rw [encodeHandle, UInt32.toNat_or, hshift, hidx, Nat.mul_comm,
    ← Nat.two_pow_add_eq_or_of_lt (show (i : ℕ) + 1 < 2 ^ 8 by omega)]
  omega

theorem toNat_decodeGeneration (h : Handle) : (decodeGeneration h).toNat = h.toNat / 256 := by
  rw [decodeGeneration, UInt32.toNat_shiftRight, show (8 : UInt32).toNat % 32 = 8 from rfl,
    Nat.shiftRight_eq_div_pow]

/-- A handle holds 24 bits of a generation. -/
theorem decodeGeneration_lt (h : Handle) : (decodeGeneration h).toNat < 2 ^ 24 := by
  have := h.toNat_lt
  rw [toNat_decodeGeneration]
  omega

variable {h : Handle} {i : EntryIdx}

theorem decodeIndex_eq_some_iff : decodeIndex h = some i ↔ h.toNat % 256 = i + 1 := by
  have hi := i.isLt
  have hmask : (h &&& 0xff).toNat = h.toNat % 256 := by
    rw [UInt32.toNat_and, show (0xff : UInt32).toNat = 2 ^ 8 - 1 from rfl,
      Nat.and_two_pow_sub_one_eq_mod]
  have hzero : h &&& 0xff = 0 ↔ h.toNat % 256 = 0 := by
    rw [← UInt32.toNat_inj, hmask]; rfl
  have hbig : h &&& 0xff > 64 ↔ 64 < h.toNat % 256 := by
    rw [gt_iff_lt, UInt32.lt_iff_toNat_lt, hmask]; rfl
  unfold decodeIndex
  simp only [hzero, hbig, hmask]
  split_ifs with h0 hb
  · rw [show h = 0 from h0]
    simp
  · simp only [false_iff]
    omega
  · simp only [Option.some.injEq, Fin.ext_iff]
    omega

/-- The index survives the encoding, whatever the generation. -/
@[simp] theorem decodeIndex_encodeHandle (g : UInt32) (i : EntryIdx) :
    decodeIndex (encodeHandle g i) = some i := by
  rw [decodeIndex_eq_some_iff, toNat_encodeHandle]
  have := i.isLt
  omega

theorem toNat_decodeGeneration_encodeHandle (g : UInt32) (i : EntryIdx) :
    (decodeGeneration (encodeHandle g i)).toNat = g.toNat % 2 ^ 24 := by
  rw [toNat_decodeGeneration, toNat_encodeHandle]
  have := i.isLt
  omega

/-- **The generation survives the encoding only if it fits in 24 bits.** -/
theorem decodeGeneration_encodeHandle_iff {g : UInt32} :
    g = decodeGeneration (encodeHandle g i) ↔ g.toNat < 2 ^ 24 := by
  rw [← UInt32.toNat_inj, toNat_decodeGeneration_encodeHandle]
  omega

theorem encodeHandle_ne_invalid (g : UInt32) (i : EntryIdx) : encodeHandle g i ≠ nxHandleInvalid := by
  intro h
  have := congrArg UInt32.toNat h
  rw [toNat_encodeHandle, show nxHandleInvalid.toNat = 0 from rfl] at this
  omega

/-- A word that decodes is the encoding of its two halves. -/
theorem encodeHandle_decode (hi : decodeIndex h = some i) : encodeHandle (decodeGeneration h) i = h := by
  rw [decodeIndex_eq_some_iff] at hi
  rw [← UInt32.toNat_inj, toNat_encodeHandle, toNat_decodeGeneration]
  have := h.toNat_lt
  omega

/-! ### The functions of `handle.c` -/

/-- The tests that `nx_handle_lookup`, `nx_handle_close` and `nx_handle_entry_get` all
begin with: the word must decode, to an entry that is in use, under its present
generation. -/
def resolve (t : HandleTable Obj Slot) (h : Handle) : Except Err EntryIdx :=
  match decodeIndex h with
  | none => .error .einval
  | some i =>
    if (t.entries i).type = .invalid then .error .enoent
    else if (t.entries i).generation ≠ decodeGeneration h then .error .enoent
    else .ok i

/-- `nx_handle_table_init`. The generations are kept. -/
def nxHandleTableInit (t : HandleTable Obj Slot) : HandleTable Obj Slot :=
  { entries := fun i => { generation := (t.entries i).generation }, count := 0 }

/-- `nx_handle_table_count`. -/
def nxHandleTableCount (t : HandleTable Obj Slot) : ℕ := t.count

/-- `nx_handle_alloc`. -/
def nxHandleAlloc [DecidableEq Obj] (t : HandleTable Obj Slot) (type : HandleType) (rights : UInt32)
    (object : ObjWord Obj) : Except Err (HandleTable Obj Slot × Handle) :=
  if type = .invalid then .error .einval
  else if object = .null then .error .einval
  else
    match t.firstFree with
    | none => .error .enomem
    | some i =>
      let g := (t.entries i).generation
      .ok (t.occupy i { type, rights, object, generation := g, target := none }, encodeHandle g i)

/-- `nx_handle_lookup`: the type, the rights and the object. -/
def nxHandleLookup (t : HandleTable Obj Slot) (h : Handle) :
    Except Err (HandleType × UInt32 × ObjWord Obj) :=
  (resolve t h).map fun i => ((t.entries i).type, (t.entries i).rights, (t.entries i).object)

/-- `nx_handle_close`. -/
def nxHandleClose (t : HandleTable Obj Slot) (h : Handle) : Except Err (HandleTable Obj Slot) :=
  (resolve t h).map t.release

/-- `nx_handle_set_slot`. It decodes the index only: the generation is not compared. -/
def nxHandleSetSlot (t : HandleTable Obj Slot) (h : Handle) (target : Option Slot) :
    HandleTable Obj Slot :=
  match decodeIndex h with
  | none => t
  | some i =>
    if (t.entries i).type = .invalid then t
    else if (t.entries i).target.isSome then t
    else t.set i { t.entries i with target }

/-- `nx_handle_alloc_with_slot`. -/
def nxHandleAllocWithSlot [DecidableEq Obj] (t : HandleTable Obj Slot) (type : HandleType)
    (rights : UInt32) (object : ObjWord Obj) (target : Option Slot) :
    Except Err (HandleTable Obj Slot × Handle) :=
  match nxHandleAlloc t type rights object with
  | .error e => .error e
  | .ok (t', h) => .ok (if target.isSome then nxHandleSetSlot t' h target else t', h)

/-- `nx_handle_alloc_resource`. The id may be 0. -/
def nxHandleAllocResource (t : HandleTable Obj Slot) (rights : UInt32) (id : UInt32)
    (target : Option Slot) : Except Err (HandleTable Obj Slot × Handle) :=
  match t.firstFree with
  | none => .error .enomem
  | some i =>
    let g := (t.entries i).generation
    .ok (t.occupy i { type := .resource, rights, object := .id id, generation := g, target },
      encodeHandle g i)

/-- `nx_handle_duplicate`. It allocates with `nx_handle_alloc`, whatever the type. -/
def nxHandleDuplicate [DecidableEq Obj] (t : HandleTable Obj Slot) (src : Handle) (newRights : UInt32) :
    Except Err (HandleTable Obj Slot × Handle) :=
  match resolve t src with
  | .error e => .error e
  | .ok s =>
    if newRights &&& ~~~(t.entries s).rights ≠ 0 then .error .eperm
    else nxHandleAllocWithSlot t (t.entries s).type newRights (t.entries s).object (t.entries s).target

/-- `invalidate_slot_cb`, for one process's table. -/
def invalidateSlotCb [DecidableEq Slot] (depSlot : Slot) (t : HandleTable Obj Slot) :
    HandleTable Obj Slot :=
  forLoop 64 (fun t i =>
    if (t.entries i).target ≠ some depSlot then t
    else if (t.entries i).type = .invalid then t
    else t.release i) t

/-! ### What each of them does -/

variable {t : HandleTable Obj Slot}

theorem resolve_eq_ok_iff :
    resolve t h = .ok i ↔
      decodeIndex h = some i ∧ (t.entries i).Live ∧ (t.entries i).generation = decodeGeneration h := by
  unfold resolve HandleEntry.Live
  cases hd : decodeIndex h with
  | none => simp
  | some j =>
    simp only [Option.some.injEq]
    split_ifs with hinv hgen
    · simp only [false_iff]
      rintro ⟨rfl, hne, -⟩
      exact hne hinv
    · simp only [false_iff]
      rintro ⟨rfl, -, hg⟩
      exact hgen hg
    · rw [not_not] at hgen
      simp only [Except.ok.injEq]
      exact ⟨fun h => h ▸ ⟨rfl, hinv, hgen⟩, fun h => h.1⟩

theorem firstFree_some (h : t.firstFree = some i) : ¬ (t.entries i).Live := by
  have := List.find?_some h
  simpa [HandleEntry.Live] using this

theorem firstFree_none_iff : t.firstFree = none ↔ ∀ i, (t.entries i).Live := by
  simp [HandleTable.firstFree, List.find?_eq_none, HandleEntry.Live]

variable {t' : HandleTable Obj Slot} {type : HandleType} {rights : UInt32} {object : ObjWord Obj}

/-- **The three allocators install one entry.** The handle returned encodes the first
free entry under the generation it has. -/
theorem nxHandleAlloc_ok_iff [DecidableEq Obj] :
    nxHandleAlloc t type rights object = .ok (t', h) ↔
      type ≠ .invalid ∧ object ≠ .null ∧ ∃ i, t.firstFree = some i ∧
        h = encodeHandle (t.entries i).generation i ∧
        t' = t.occupy i ⟨type, rights, object, (t.entries i).generation, none⟩ := by
  unfold nxHandleAlloc
  split_ifs with hty hob
  · simp [hty]
  · simp [hob]
  · cases hf : t.firstFree with
    | none => simp
    | some i => simp [hty, hob, eq_comm, and_comm]

theorem nxHandleAlloc_enomem_iff [DecidableEq Obj] :
    nxHandleAlloc t type rights object = .error .enomem ↔
      type ≠ .invalid ∧ object ≠ .null ∧ t.firstFree = none := by
  unfold nxHandleAlloc
  split_ifs with hty hob
  · simp [hty]
  · simp [hob]
  · cases hf : t.firstFree with
    | none => simp [hty, hob]
    | some i => simp

variable {target : Option Slot}

theorem nxHandleAllocWithSlot_ok_iff [DecidableEq Obj] :
    nxHandleAllocWithSlot t type rights object target = .ok (t', h) ↔
      type ≠ .invalid ∧ object ≠ .null ∧ ∃ i, t.firstFree = some i ∧
        h = encodeHandle (t.entries i).generation i ∧
        t' = t.occupy i ⟨type, rights, object, (t.entries i).generation, target⟩ := by
  unfold nxHandleAllocWithSlot
  cases hal : nxHandleAlloc t type rights object with
  | error e =>
    simp only [reduceCtorEq, false_iff]
    rintro ⟨hty, hob, i, hf, -, -⟩
    rw [nxHandleAlloc_ok_iff.mpr ⟨hty, hob, i, hf, rfl, rfl⟩] at hal
    exact absurd hal (by simp)
  | ok r =>
    obtain ⟨t₁, h₁⟩ := r
    obtain ⟨hty, hob, i, hf, rfl, rfl⟩ := nxHandleAlloc_ok_iff.mp hal
    -- The entry was just occupied with no target, so `nx_handle_set_slot` stores to it.
    have hset : nxHandleSetSlot (t.occupy i ⟨type, rights, object, (t.entries i).generation, none⟩)
        (encodeHandle (t.entries i).generation i) target =
          t.occupy i ⟨type, rights, object, (t.entries i).generation, target⟩ := by
      simp [nxHandleSetSlot, HandleTable.occupy, HandleTable.set, hty]
    cases target with
    | none => simp [hty, hob, hf, eq_comm, and_comm]
    | some s => simp [hset, hty, hob, hf, eq_comm, and_comm]

theorem nxHandleAllocWithSlot_error_iff [DecidableEq Obj] {e : Err} :
    nxHandleAllocWithSlot t type rights object target = .error e ↔
      nxHandleAlloc t type rights object = .error e := by
  unfold nxHandleAllocWithSlot
  cases nxHandleAlloc t type rights object <;> simp

theorem nxHandleAllocResource_ok_iff {id : UInt32} :
    nxHandleAllocResource t rights id target = .ok (t', h) ↔
      ∃ i, t.firstFree = some i ∧ h = encodeHandle (t.entries i).generation i ∧
        t' = t.occupy i ⟨.resource, rights, .id id, (t.entries i).generation, target⟩ := by
  unfold nxHandleAllocResource
  cases hf : t.firstFree with
  | none => simp
  | some i => simp [eq_comm, and_comm]

theorem nxHandleAllocResource_error_iff {id : UInt32} {e : Err} :
    nxHandleAllocResource t rights id target = .error e ↔ e = .enomem ∧ t.firstFree = none := by
  unfold nxHandleAllocResource
  cases hf : t.firstFree with
  | none => simp [eq_comm]
  | some i => simp

theorem nxHandleDuplicate_ok_iff [DecidableEq Obj] {src : Handle} {newRights : UInt32} :
    nxHandleDuplicate t src newRights = .ok (t', h) ↔
      ∃ s, resolve t src = .ok s ∧ newRights &&& ~~~(t.entries s).rights = 0 ∧
        nxHandleAllocWithSlot t (t.entries s).type newRights (t.entries s).object (t.entries s).target =
          .ok (t', h) := by
  unfold nxHandleDuplicate
  cases resolve t src with
  | error e => simp
  | ok s =>
    simp only [Except.ok.injEq, exists_eq_left']
    split_ifs with hr
    · simp [hr]
    · simp [not_not.mp hr]

theorem nxHandleClose_ok_iff :
    nxHandleClose t h = .ok t' ↔ ∃ i, resolve t h = .ok i ∧ t' = t.release i := by
  unfold nxHandleClose
  cases resolve t h <;> simp [Except.map, eq_comm]

/-- **Slot invalidation closes the entries that target the slot** and leaves the
others. -/
theorem invalidateSlotCb_entries [DecidableEq Slot] (s : Slot) (t : HandleTable Obj Slot)
    (j : EntryIdx) : (invalidateSlotCb s t).entries j =
      if (t.entries j).target = some s ∧ (t.entries j).Live then
      (t.entries j).closed else t.entries j := by
  refine forLoop_pointwise (fun t => t.entries)
    (fun _ e => if e.target = some s ∧ e.Live then e.closed else e) (fun t i => ?_)
      (fun t i j hji => ?_) t j
  · by_cases htgt : (t.entries i).target = some s <;>
      by_cases hinv : (t.entries i).type = .invalid <;> simp [htgt, hinv, HandleEntry.Live,
        HandleTable.release]
  · split_ifs <;> simp [HandleTable.release, update_of_ne hji]

/-! ### Fresh handles -/

/-- What the caller of an allocation may expect of the handle `h` it was given: it is
not the reserved value, it looks up to what it was created with, and it can be closed. -/
structure Usable (t : HandleTable Obj Slot) (h : Handle)
    (created : HandleType × UInt32 × ObjWord Obj) : Prop where
  ne_invalid : h ≠ nxHandleInvalid
  lookup : nxHandleLookup t h = .ok created
  close : ∃ t', nxHandleClose t h = .ok t'

theorem entries_occupy (t : HandleTable Obj Slot) (i : EntryIdx) (e : HandleEntry Obj Slot) :
    (t.occupy i e).entries i = e := by
  simp [HandleTable.occupy]

theorem resolve_occupy_iff {e : HandleEntry Obj Slot} (hlive : e.Live) :
    resolve (t.occupy i e) (encodeHandle e.generation i) = .ok i ↔ e.generation.toNat < 2 ^ 24 := by
  rw [resolve_eq_ok_iff, decodeIndex_encodeHandle, entries_occupy, decodeGeneration_encodeHandle_iff]
  simp [hlive]

theorem usable_occupy_iff {e : HandleEntry Obj Slot} (hlive : e.Live) :
    Usable (t.occupy i e) (encodeHandle e.generation i) (e.type, e.rights, e.object) ↔
      e.generation.toNat < 2 ^ 24 := by
  rw [← resolve_occupy_iff (t := t) (i := i) hlive]
  constructor
  · rintro ⟨-, -, t', hclose⟩
    obtain ⟨j, hj, -⟩ := nxHandleClose_ok_iff.mp hclose
    have hji : decodeIndex (encodeHandle e.generation i) = some j := (resolve_eq_ok_iff.mp hj).1
    rw [decodeIndex_encodeHandle, Option.some.injEq] at hji
    rw [hj, hji]
  · intro h
    exact ⟨encodeHandle_ne_invalid _ _, by simp [nxHandleLookup, h, Except.map, entries_occupy],
      _, nxHandleClose_ok_iff.mpr ⟨i, h, rfl⟩⟩

/-! ### Runs of table operations -/

/-- A call that allocates an entry and returns its handle. -/
inductive AllocCall (Obj : Type u) (Slot : Type v) where
  /-- `nx_handle_alloc`. -/
  | alloc (type : HandleType) (rights : UInt32) (object : ObjWord Obj)
  /-- `nx_handle_alloc_resource`. -/
  | allocResource (rights id : UInt32) (target : Option Slot)
  /-- `nx_handle_duplicate`. -/
  | duplicate (src : Handle) (newRights : UInt32)

/-- An operation on one table. -/
inductive TableOp (Obj : Type u) (Slot : Type v) where
  | call (c : AllocCall Obj Slot)
  /-- `nx_handle_close`. -/
  | close (h : Handle)
  /-- `nx_handle_table_init`. -/
  | init
  /-- `nx_handle_table_invalidate_for_slot`. -/
  | invalidateForSlot (depSlot : Slot)

variable [DecidableEq Obj]

/-- What the call returns. -/
def AllocCall.run (t : HandleTable Obj Slot) : AllocCall Obj Slot →
    Except Err (HandleTable Obj Slot × Handle)
  | .alloc type rights object => nxHandleAlloc t type rights object
  | .allocResource rights id target => nxHandleAllocResource t rights id target
  | .duplicate src newRights => nxHandleDuplicate t src newRights

/-- The type, the rights and the object or id a handle of this call is created with.
A duplicate has its source's type and object. -/
def AllocCall.created (t : HandleTable Obj Slot) : AllocCall Obj Slot → HandleType × UInt32 × ObjWord Obj
  | .alloc type rights object => (type, rights, object)
  | .allocResource rights id _ => (.resource, rights, .id id)
  | .duplicate src newRights =>
    match resolve t src with
    | .ok s => ((t.entries s).type, newRights, (t.entries s).object)
    | .error _ => (.invalid, newRights, .null)

/-- **Every allocation is one store**, of an entry that holds what the call asked for,
at the first free index and under the generation found there. -/
theorem AllocCall.run_ok {c : AllocCall Obj Slot} (hrun : c.run t = .ok (t', h)) :
    ∃ i e, t.firstFree = some i ∧ t' = t.occupy i e ∧ h = encodeHandle (t.entries i).generation i ∧
      e.Live ∧ e.generation = (t.entries i).generation ∧ (e.type, e.rights, e.object) = c.created t := by
  cases c with
  | alloc type rights object =>
    obtain ⟨hty, -, i, hf, rfl, rfl⟩ := nxHandleAlloc_ok_iff.mp hrun
    exact ⟨i, _, hf, rfl, rfl, hty, rfl, rfl⟩
  | allocResource rights id target =>
    obtain ⟨i, hf, rfl, rfl⟩ := nxHandleAllocResource_ok_iff.mp hrun
    exact ⟨i, _, hf, rfl, rfl, by simp [HandleEntry.Live], rfl, rfl⟩
  | duplicate src newRights =>
    obtain ⟨s, hs, -, hal⟩ := nxHandleDuplicate_ok_iff.mp hrun
    obtain ⟨hty, -, i, hf, rfl, rfl⟩ := nxHandleAllocWithSlot_ok_iff.mp hal
    exact ⟨i, _, hf, rfl, rfl, hty, rfl, by simp [AllocCall.created, hs]⟩

variable [DecidableEq Slot]

/-- The table after an operation. One that fails leaves it as it was. -/
def TableOp.apply (t : HandleTable Obj Slot) : TableOp Obj Slot → HandleTable Obj Slot
  | .call c => match c.run t with
    | .ok (t', _) => t'
    | .error _ => t
  | .close h => match nxHandleClose t h with
    | .ok t' => t'
    | .error _ => t
  | .init => nxHandleTableInit t
  | .invalidateForSlot s => invalidateSlotCb s t

/-- The table in zeroed memory after the operations `ops`. -/
def tableAfter (ops : List (TableOp Obj Slot)) : HandleTable Obj Slot := runFrom TableOp.apply {} ops

/-- **A handle that was just returned can be used exactly when the generation of the
entry it was taken from fits in the handle's 24 bits.** -/
theorem fresh_handle_usable_iff (ops : List (TableOp Obj Slot)) (c : AllocCall Obj Slot)
    (t' : HandleTable Obj Slot) (h : Handle) (hrun : c.run (tableAfter ops) = .ok (t', h)) :
    Usable t' h (c.created (tableAfter ops)) ↔
      ∃ i, (tableAfter ops).firstFree = some i ∧ ((tableAfter ops).entries i).generation.toNat <
      2 ^ 24 := by
  obtain ⟨i, e, hf, rfl, rfl, hlive, hgen, hcreated⟩ := AllocCall.run_ok hrun
  rw [← hgen, ← hcreated, usable_occupy_iff hlive]
  simp [hf, hgen]

/-- Two handles are allocated, and both are closed; the first entry is used again and closed
again. -/
def closedTwice : List (TableOp Unit Unit) :=
  [.call (.alloc .channel 3 (.ptr ())), .call (.allocResource 1 5 none), .close 1, .close 2,
    .call (.alloc .channel 3 (.ptr ())), .close 257]

/-- The next handle, which has generation 2. -/
theorem fresh_handle_usable_reused :
    ∃ t', (AllocCall.alloc .channel 3 (.ptr ())).run (tableAfter closedTwice) = .ok (t', 513) ∧
      Usable t' 513 (.channel, 3, .ptr ()) :=
  ⟨_, rfl, (fresh_handle_usable_iff closedTwice (.alloc .channel 3 (.ptr ())) _ 513 rfl).mpr ⟨0, rfl, by decide⟩⟩

/-- `n` times: allocate the first entry of the table and close it again. -/
def churn (n : ℕ) : List (TableOp Unit Unit) :=
  (List.range n).flatMap fun k =>
    [.call (.alloc .channel 3 (.ptr ())), .close (encodeHandle (UInt32.ofNat k) 0)]

/-- Each turn of `churn` advances the entry's generation by one, while it fits in a handle. -/
theorem tableAfter_churn {n : ℕ} (hn : n ≤ 2 ^ 24) :
    tableAfter (churn n) = { entries := update (fun _ => {}) 0 { generation := UInt32.ofNat n } } := by
  induction n with
  | zero => simp [churn, tableAfter]
  | succ n ih =>
    have hsplit : churn (n + 1) = churn n ++
        [.call (.alloc .channel 3 (.ptr ())), .close (encodeHandle (UInt32.ofNat n) 0)] := by
      simp [churn, List.range_succ]
    have hfits : UInt32.ofNat n = decodeGeneration (encodeHandle (UInt32.ofNat n) 0) := by
      rw [decodeGeneration_encodeHandle_iff, UInt32.toNat_ofNat']
      omega
    rw [hsplit, tableAfter, runFrom_append]
    rw [tableAfter] at ih
    rw [ih (by omega), runFrom_cons, runFrom_cons, runFrom_nil]
    -- The allocation takes entry 0, and the close finds it under the handle's generation.
    set t : HandleTable Unit Unit :=
      { entries := update (fun _ => {}) 0 { generation := UInt32.ofNat n } } with ht
    have halloc : TableOp.apply t (.call (.alloc .channel 3 (.ptr ()))) =
        t.occupy 0 { type := .channel, rights := 3, object := .ptr (), generation := UInt32.ofNat n } := rfl
    have hres : resolve (t.occupy 0
      { type := .channel, rights := 3, object := .ptr (), generation := UInt32.ofNat n })
        (encodeHandle (UInt32.ofNat n) 0) = .ok 0 := by
      rw [resolve_eq_ok_iff]
      exact ⟨decodeIndex_encodeHandle _ _, by simp [HandleEntry.Live, HandleTable.occupy], by
        simpa [HandleTable.occupy] using hfits⟩
    rw [halloc, TableOp.apply, nxHandleClose_ok_iff.mpr ⟨0, hres, rfl⟩]
    simp [ht, HandleTable.occupy, HandleTable.release, HandleEntry.closed, UInt32.ofNat_add]

/-- After `2 ^ 24` closes of its first entry the table hands out the handle 1, which
neither looks up nor closes. -/
theorem fresh_handle_unusable :
    ∃ t', (AllocCall.alloc .channel 3 (.ptr ())).run (tableAfter (churn (2 ^ 24))) = .ok (t', 1) ∧
      nxHandleLookup t' 1 = .error .enoent ∧ nxHandleClose t' 1 = .error .enoent := by
  rw [tableAfter_churn le_rfl]
  exact ⟨_, rfl, rfl, rfl⟩

/-! ### Duplicates -/

omit [DecidableEq Slot] in
/-- **A duplicate is like its source**, in a table with room, just when the source has not the word
NULL, which the id 0 is, and the generation of the free entry fits in a handle. -/
theorem duplicate_like_source_iff (t : HandleTable Obj Slot) (src : Handle) (s : EntryIdx)
    (newRights : UInt32) (hfree : ∃ j, ¬ (t.entries j).Live) (hsrc : resolve t src = .ok s)
    (hsub : newRights &&& ~~~(t.entries s).rights = 0) :
    (∃ t' h i, nxHandleDuplicate t src newRights = .ok (t', h) ∧ resolve t' h = .ok i ∧
      ¬ (t.entries i).Live ∧
        (t'.entries i).type = (t.entries s).type ∧ (t'.entries i).object = (t.entries s).object ∧
        (t'.entries i).target = (t.entries s).target ∧ (t'.entries i).rights = newRights ∧
        ∀ j ≠ i, t'.entries j = t.entries j) ↔
      (t.entries s).object ≠ .null ∧ ∀ i, t.firstFree = some i →
      (t.entries i).generation.toNat < 2 ^ 24 := by
  have hlive : (t.entries s).type ≠ .invalid := (resolve_eq_ok_iff.mp hsrc).2.1
  have hnew : ∀ i, resolve
    (t.occupy i ⟨(t.entries s).type, newRights, (t.entries s).object, (t.entries i).generation,
      (t.entries s).target⟩) (encodeHandle (t.entries i).generation i) = .ok i ↔
        (t.entries i).generation.toNat < 2 ^ 24 :=
    fun i => resolve_occupy_iff hlive
  constructor
  · rintro ⟨t', h, j, hdup, hres, -⟩
    obtain ⟨s', hs', -, hal⟩ := nxHandleDuplicate_ok_iff.mp hdup
    obtain rfl : s = s' := Except.ok.inj (hsrc.symm.trans hs')
    obtain ⟨-, hob, i, hf, rfl, rfl⟩ := nxHandleAllocWithSlot_ok_iff.mp hal
    have hji : decodeIndex (encodeHandle (t.entries i).generation i) = some j :=
      (resolve_eq_ok_iff.mp hres).1
    rw [decodeIndex_encodeHandle, Option.some.injEq] at hji
    subst hji
    exact ⟨hob, fun i' hf' => Option.some.inj (hf.symm.trans hf') ▸ (hnew i).mp hres⟩
  · rintro ⟨hob, hgen⟩
    obtain ⟨i, hf⟩ : ∃ i, t.firstFree = some i := by
      rw [← Option.ne_none_iff_exists', ne_eq, firstFree_none_iff, not_forall]
      exact hfree
    refine ⟨_, _, i, nxHandleDuplicate_ok_iff.mpr ⟨s, hsrc, hsub, nxHandleAllocWithSlot_ok_iff.mpr
      ⟨hlive, hob, i, hf, rfl, rfl⟩⟩, (hnew i).mpr (hgen i hf), firstFree_some hf, ?_⟩
    rw [entries_occupy]
    exact ⟨rfl, rfl, rfl, rfl, fun j hj => update_of_ne hj _ _⟩

theorem duplicate_like_source_channel :
    ∃ t' h i, nxHandleDuplicate (@tableAfter Unit Unit _ _ [.call (.alloc .channel 3 (.ptr ()))]) 1
      1 = .ok (t', h) ∧ resolve t' h = .ok i ∧ (t'.entries i).rights = 1 := by
  obtain ⟨t', h, i, hdup, hres, -, -, -, -, hrights, -⟩ :=
    (duplicate_like_source_iff (@tableAfter Unit Unit _ _ [.call (.alloc .channel 3 (.ptr ()))]) 1 0
      1 ⟨1, by decide⟩ rfl (by decide)).mpr ⟨by decide, by decide⟩
  exact ⟨t', h, i, hdup, hres, hrights⟩

end Nonux.Framework
