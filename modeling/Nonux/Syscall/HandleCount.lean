import Nonux.Syscall.Handles

/-!
# The live counter of a handle table

A table counts its entries in use by hand, and half of the code that fills and clears
entries does so without going through `handle.c`. Whatever the writer, what it does to
a table is a sequence of four moves (`Move`): it clears an entry in use, fills a free
one, replaces one in use, or wipes the table. Each move keeps the counter equal to the
number of entries in use (`Move.countOk`), so every writer does.

Moves also say who minds the generations. The writers that go through `handle.c` with a
handle only fill an entry under the generation it has, and only clear one whose
generation fits in a handle; those that store entries themselves are `raw`. Without raw
moves no generation falls (`Moves.generation_le`).

* `LocalCall.run_moves`, `inheritHandles_moves`, `exitHandles_moves`,
  `TableOp.apply_moves`: every writer makes moves only.
* `table_count_and_enomem`: in every reachable state the counters are right.
-/

namespace Nonux.Syscall

open Nonux.Components Nonux.Framework Nonux.Lib Relation Function

/-- The counter is the number of entries in use. -/
def CountOk (t : Table) : Prop := t.count = countOf HandleEntry.Live t.entries

/-! ### Moves -/

/-- The generation of the entry fits in a handle. -/
def Fits (t : Table) (i : EntryIdx) : Prop := (t.entries i).generation.toNat < 2 ^ 24

/-- What a writer can do to a table at a time, if it is `raw` without regard to
generations. -/
inductive Move (raw : Prop) : Table → Table → Prop
  /-- Clear an entry in use. -/
  | release {t : Table} {i : EntryIdx} (hlive : (t.entries i).Live) (hfit : raw ∨ Fits t i) :
      Move raw t (t.release i)
  /-- Fill a free entry. -/
  | occupy {t : Table} {i : EntryIdx} {e : Entry} (hfree : ¬ (t.entries i).Live) (hlive : e.Live)
      (hgen : raw ∨ e.generation = (t.entries i).generation) : Move raw t (t.occupy i e)
  /-- Replace an entry in use. -/
  | replace {t : Table} {i : EntryIdx} {e : Entry} (hraw : raw) (hold : (t.entries i).Live)
      (hlive : e.Live) : Move raw t (t.set i e)
  /-- Wipe the table. -/
  | init {t : Table} : Move raw t (nxHandleTableInit t)

/-- Any number of moves. -/
abbrev Moves (raw : Prop) := ReflTransGen (Move raw)

variable {raw : Prop}

theorem countOk_init (t : Table) : CountOk (nxHandleTableInit t) := by
  unfold CountOk
  exact (countOf_eq_zero_iff.mpr fun i => by simp [nxHandleTableInit, HandleEntry.Live]).symm

variable {t t' : Table}

/-- **A move keeps the counter right.** -/
theorem Move.countOk (hm : Move raw t t') (h : CountOk t) : CountOk t' := by
  unfold CountOk at *
  cases hm with
  | @release i hlive hfit =>
    have := countOf_update HandleEntry.Live t.entries i (t.entries i).closed
    simp only [hlive, HandleEntry.not_live_closed, if_true, if_false] at this
    simp only [HandleTable.release]
    omega
  | @occupy i e hfree hlive hgen =>
    have := countOf_update HandleEntry.Live t.entries i e
    simp only [hfree, hlive, if_true, if_false] at this
    simp only [HandleTable.occupy]
    omega
  | @replace i e hraw hold hlive =>
    have := countOf_update HandleEntry.Live t.entries i e
    simp only [hold, hlive, if_true] at this
    simp only [HandleTable.set]
    omega
  | init => exact countOk_init t

theorem Moves.countOk (hm : Moves raw t t') (h : CountOk t) : CountOk t' := by
  induction hm with
  | refl => exact h
  | tail _ hstep ih => exact hstep.countOk ih

/-- A move that is not raw lets no generation fall. -/
theorem Move.generation_le (hm : Move False t t') (j : EntryIdx) :
    (t.entries j).generation.toNat ≤ (t'.entries j).generation.toNat := by
  cases hm with
  | @release i hlive hfit =>
    have hfit := hfit.resolve_left id
    by_cases hji : j = i
    · subst hji
      simp only [HandleTable.release, update_self, HandleEntry.closed, UInt32.toNat_add]
      unfold Fits at hfit
      have : (1 : UInt32).toNat = 1 := rfl
      omega
    · simp [HandleTable.release, hji]
  | @occupy i e hfree hlive hgen =>
    by_cases hji : j = i
    · subst hji
      simp [HandleTable.occupy, hgen.resolve_left id]
    · simp [HandleTable.occupy, hji]
  | replace hraw => exact hraw.elim
  | init => exact le_rfl

theorem Moves.generation_le (hm : Moves False t t') (j : EntryIdx) :
    (t.entries j).generation.toNat ≤ (t'.entries j).generation.toNat := by
  induction hm with
  | refl => exact le_rfl
  | tail _ hstep ih => exact ih.trans (hstep.generation_le j)

/-! ### Every writer makes moves -/

variable {h : Handle}

theorem moves_alloc {type : HandleType} {rights : UInt32} {object : ObjWord KObj}
    (hal : nxHandleAlloc t type rights object = .ok (t', h)) : Moves raw t t' := by
  obtain ⟨hty, -, i, hf, -, rfl⟩ := nxHandleAlloc_ok_iff.mp hal
  exact .single (.occupy (firstFree_some hf) hty (.inr rfl))

variable {i : EntryIdx}

/-- An entry that a handle resolves to has a generation that fits. -/
theorem fits_of_resolve (hi : resolve t h = .ok i) : Fits t i := by
  unfold Fits
  rw [(resolve_eq_ok_iff.mp hi).2.2]
  exact decodeGeneration_lt h

theorem moves_close (hc : nxHandleClose t h = .ok t') : Moves raw t t' := by
  obtain ⟨i, hi, rfl⟩ := nxHandleClose_ok_iff.mp hc
  exact .single (.release (resolve_eq_ok_iff.mp hi).2.1 (.inr (fits_of_resolve hi)))

theorem moves_closeIgnored (t : Table) (h : Handle) : Moves raw t (handleCloseIgnored t h) := by
  unfold handleCloseIgnored
  split
  · next hc => exact moves_close hc
  · exact .refl

/-- The store of a copy: into a free entry, which the writer then counts, or over one in
use, which it does not. -/
theorem moves_store {e : Entry} {count : ℕ} (he : e.Live)
    (hcount : count = if (t.entries i).Live then t.count else t.count + 1) :
    Moves True t { entries := update t.entries i e, count } := by
  subst hcount
  split_ifs with hlive
  · exact .single (.replace trivial hlive he)
  · exact .single (.occupy hlive he (.inl trivial))

theorem moves_invalidateSlotCb (s : KSlot) (t : Table) : Moves True t (invalidateSlotCb s t) := by
  unfold invalidateSlotCb
  refine forLoop_inv (fun t' => Moves True t t') .refl fun i t' ih => ?_
  split_ifs with htgt hinv
  · exact ih
  · exact ih
  · exact ih.tail (.release hinv (.inl trivial))

theorem TableOp.apply_moves (t : Table) (op : TableOp KObj KSlot) : Moves True t (op.apply t) := by
  cases op with
  | call c =>
    rw [TableOp.apply]
    cases hrun : c.run t with
    | error e => exact .refl
    | ok r =>
      obtain ⟨t', h⟩ := r
      obtain ⟨i, e, hf, rfl, -, hlive, -, -⟩ := AllocCall.run_ok hrun
      exact .single (.occupy (firstFree_some hf) hlive (.inl trivial))
  | close h =>
    rw [TableOp.apply]
    split
    · next hc => exact moves_close hc
    · exact .refl
  | init => exact .single .init
  | invalidateForSlot s => exact moves_invalidateSlotCb s t

theorem createPair_moves (t : Table) (o : Objects) (rights0 rights1 : UInt32) (copyOut : Except Err Unit)
    (calloc : Bool) : Moves raw t (createPair t o rights0 rights1 copyOut calloc).1 := by
  unfold createPair
  split
  · exact .refl
  · dsimp only
    split
    · exact .refl
    · next t₁ h0 hal0 =>
      have h₁ : Moves raw t t₁ := moves_alloc hal0
      split
      · exact h₁.trans (moves_closeIgnored _ _)
      · next t₂ h1 hal1 =>
        have h₂ := h₁.trans (moves_alloc hal1)
        split
        · exact (h₂.trans (moves_closeIgnored _ _)).trans (moves_closeIgnored _ _)
        · exact h₂

theorem sysHandleClose_moves (t : Table) (o : Objects) (h : Handle) :
    Moves raw t (sysHandleClose t o h).1 := by
  unfold sysHandleClose
  split
  · exact .refl
  · dsimp only
    split
    · next hc => exact moves_close hc
    · exact .refl

/-- What an open does to a table: nothing, or it fills the first free entry, with something that is
no endpoint, and returns the handle of that. -/
def OpenedIn (t : Table) (r : Table × Objects × Ret) : Prop :=
  (r.1 = t ∧ r.2.2.handles = []) ∨ ∃ i e, r.1 = t.occupy i e ∧ t.firstFree = some i ∧ e.Live ∧
    e.generation = (t.entries i).generation ∧ (∀ r, e.object ≠ .ptr (.endpoint r)) ∧
    r.2.2.handles = [encodeHandle (t.entries i).generation i]

/-- `sys_open` makes no channel. -/
theorem sysOpen_cases (ps : Procs) (cwd : Path) (t : Table) (o : Objects) (mem : UserMem)
    (userPath : Addr) (flags : UInt32) (malloc : Bool) :
    OpenedIn t (sysOpen ps cwd t o mem userPath flags malloc) ∧
      (sysOpen ps cwd t o mem userPath flags malloc).2.1.chans = o.chans := by
  have hdir (kpath) : OpenedIn t (openDir t o kpath malloc) ∧
      (openDir t o kpath malloc).2.1.chans = o.chans := by
    unfold openDir
    split_ifs
    · exact ⟨.inl ⟨rfl, rfl⟩, rfl⟩
    · dsimp only
      split
      · exact ⟨.inl ⟨rfl, rfl⟩, rfl⟩
      · next hal =>
        obtain ⟨hty, -, i, hf, rfl, rfl⟩ := nxHandleAllocWithSlot_ok_iff.mp hal
        exact ⟨.inr ⟨i, _, rfl, hf, hty, rfl, by simp, rfl⟩, rfl⟩
  have hfile (kpath) : OpenedIn t (openFile ps t o kpath flags) ∧
      (openFile ps t o kpath flags).2.1.chans = o.chans := by
    unfold openFile
    dsimp only
    split_ifs
    · exact ⟨.inl ⟨rfl, rfl⟩, rfl⟩
    · split
      · exact ⟨.inl ⟨rfl, rfl⟩, rfl⟩
      · next hal =>
        obtain ⟨i, hf, rfl, rfl⟩ := nxHandleAllocResource_ok_iff.mp hal
        exact ⟨.inr ⟨i, _, rfl, hf, by simp [HandleEntry.Live], rfl, by simp, rfl⟩, rfl⟩
  unfold sysOpen
  split
  · exact ⟨.inl ⟨rfl, rfl⟩, rfl⟩
  · dsimp only
    split
    · split_ifs
      · exact hdir _
      · exact hfile _
    · exact hfile _

theorem OpenedIn.moves {r : Table × Objects × Ret} (h : OpenedIn t r) : Moves raw t r.1 := by
  rcases h with ⟨heq, -⟩ | ⟨i, e, heq, hf, hlive, hgen, -⟩
  · rw [heq]
  · rw [heq]
    exact .single (.occupy (firstFree_some hf) hlive (.inr hgen))

/-- `sys_getdents64` leaves the table alone, and of the objects moves one cookie. -/
theorem sysGetdents64_cases (ps : Procs) (t : Table) (o : Objects) (h : Handle) (userBuf : Addr)
    (cap : UInt64) (malloc : Bool) : (sysGetdents64 ps t o h userBuf cap malloc).1 = t ∧
      ((sysGetdents64 ps t o h userBuf cap malloc).2.1 = o ∨
        ∃ d f, (sysGetdents64 ps t o h userBuf cap malloc).2.1 =
        { o with cursors := o.cursors.modify d f }) := by
  unfold sysGetdents64
  dsimp only
  repeat' split
  all_goals first | exact ⟨rfl, .inl rfl⟩ | exact ⟨rfl, .inr ⟨_, _, rfl⟩⟩

theorem sysDup3_moves (t : Table) (o : Objects) (oldfd newfd : Handle) :
    Moves True t (sysDup3 t o oldfd newfd).1 := by
  unfold sysDup3
  split_ifs with heq
  · exact .refl
  · split
    · exact .refl
    · next s hs =>
      split
      · exact .refl
      · exact moves_store (resolve_eq_ok_iff.mp hs).2.1 rfl

theorem fcntlFree_some {arg : ℤ} (h : fcntlFree t arg = some i) : ¬ (t.entries i).Live := by
  have := List.find?_some h
  simp only [decide_eq_true_eq] at this
  exact not_not.mpr this.2

theorem sysFcntl_moves (t : Table) (o : Objects) (fd : Handle) (cmd arg : ℤ) :
    Moves True t (sysFcntl t o fd cmd arg).1 := by
  unfold sysFcntl
  split_ifs
  · exact .refl
  · unfold fcntlDupfd
    split
    · exact .refl
    · next s hs =>
      split
      · exact .refl
      · next i hi => exact .single (.occupy (fcntlFree_some hi) (resolve_eq_ok_iff.mp hs).2.1
          (.inl trivial))
  · exact .refl

/-- **A syscall on the caller's table makes moves only.** -/
theorem LocalCall.run_moves (ps : Procs) (p : Process) (o : Objects) (c : LocalCall) :
    Moves True p.handles (c.run ps p o).1 := by
  cases c with
  | channelCreate e0 e1 calloc =>
    simp only [LocalCall.run, sysChannelCreate]
    split_ifs
    · exact .refl
    · exact createPair_moves _ _ _ _ _ _
  | pipe fds calloc =>
    simp only [LocalCall.run, sysPipe]
    split_ifs
    · exact .refl
    · exact createPair_moves _ _ _ _ _ _
  | handleClose h => exact sysHandleClose_moves _ _ _
  | «open» mem path flags malloc => exact (sysOpen_cases ..).1.moves
  | getdents64 h buf cap malloc =>
    rw [LocalCall.run, (sysGetdents64_cases ..).1]
  | dup3 oldfd newfd => exact sysDup3_moves _ _ _ _
  | fcntl fd cmd arg => exact sysFcntl_moves _ _ _ _ _

theorem inheritHandles_moves (parent child : Table) (o : Objects) :
    Moves True child (inheritHandles parent child o).1 := by
  unfold inheritHandles
  refine forLoop_inv (fun r : Table × Objects => Moves True child r.1) .refl fun i r ih => ?_
  dsimp only
  split
  · exact ih
  · next hinv =>
    split
    · refine ih.trans (moves_store hinv ?_)
      by_cases hfree : (r.1.entries i).type = .invalid <;> simp [hfree, HandleEntry.Live]
    · exact ih

theorem exitHandles_moves (t : Table) (o : Objects) : Moves raw t (exitHandles t o).1 := by
  unfold exitHandles
  refine forLoop_inv (fun r : Table × Objects => Moves raw t r.1) .refl fun i r ih => ?_
  dsimp only
  split_ifs with hinv
  · exact ih
  · exact ih.trans (moves_closeIgnored _ _)
  · exact ih.trans (moves_closeIgnored _ _)

/-! ### Every state -/

/-- A step that writes handle tables: a syscall or a change of processes, a call of
`handle.c` on one process's table, or the invalidation of a slot in all of them. -/
inductive Writer where
  | step (op : KOp)
  | table (pk : ProcKey) (op : TableOp KObj KSlot)
  | invalidateForSlot (depSlot : KSlot)

/-- Rewrite every process's table. -/
def Procs.mapTables (f : Table → Table) (ps : Procs) : Procs :=
  { ps with slot := fun pk => (ps.slot pk).map fun p => { p with handles := f p.handles } }

/-- The state after the step. -/
def Writer.apply (k : Kernel) : Writer → Kernel
  | .step op => knext k op
  | .table pk op =>
    match k.procs.slot pk with
    | none => k
    | some p => { k with procs := k.procs.set pk (some { p with handles := op.apply p.handles }) }
  | .invalidateForSlot s => { k with procs := Procs.mapTables (invalidateSlotCb s) k.procs }

/-- Every process's table counts its entries. -/
def TablesOk (ps : Procs) : Prop := ∀ pk p, ps.slot pk = some p → CountOk p.handles

variable {ps : Procs} {pk : ProcKey}

/-- A store of a process whose table counts its entries. -/
theorem TablesOk.store {ps' : Procs} (h : TablesOk ps) {q : Option Process}
    (hslot : ps'.slot = update ps.slot pk q) (hq : ∀ p, q = some p → CountOk p.handles) :
    TablesOk ps' := by
  intro pk' p hp
  rw [hslot, update_apply] at hp
  split_ifs at hp
  · exact hq p hp
  · exact h pk' p hp

theorem TablesOk.set (h : TablesOk ps) {q : Option Process} (hq : ∀ p, q = some p → CountOk p.handles) :
    TablesOk (ps.set pk q) := h.store rfl hq

theorem countOk_console : CountOk consoleTable := by
  unfold CountOk
  decide

variable {k : Kernel}

/-- **Every step of the kernel keeps the counters right.** -/
theorem TablesOk.knext (h : TablesOk k.procs) (op : KOp) : TablesOk (knext k op).procs := by
  have hslots := knext_slots k op
  generalize hslot : (Syscall.knext k op).procs.slot = slot at hslots
  cases hslots with
  | same => exact fun pk p hp => h pk p (hslot ▸ hp)
  | @call pk p c hp =>
    refine h.store hslot fun p' hp' => ?_
    cases hp'
    exact (c.run_moves k.procs p k.objs).countOk (h pk p (running_slot hp))
  | fork hp hck hfree hchild =>
    refine h.store hslot fun p' hp' => ?_
    cases hp'
    rw [hchild]
    exact (inheritHandles_moves _ _ _).countOk countOk_console
  | @exit pk p code hp =>
    refine h.store hslot fun p' hp' => ?_
    cases hp'
    have hmoves : Moves True p.handles (exitHandles p.handles k.objs).1 := exitHandles_moves _ _
    dsimp only
    exact hmoves.countOk (h pk p (running_slot hp))
  | reset => exact h.store hslot fun p' hp' => by cases hp'; exact countOk_init _
  | destroy => exact h.store hslot nofun
  | create hfree hp =>
    refine h.store hslot fun p' hp' => ?_
    cases hp'
    rw [hp]
    exact countOk_console

theorem TablesOk.apply (h : TablesOk k.procs) (w : Writer) : TablesOk (w.apply k).procs := by
  cases w with
  | step op => exact h.knext op
  | table pk op =>
    rw [Writer.apply]
    split
    · exact h
    · next p hp =>
      exact h.set fun p' hp' => by
        cases hp'
        exact (TableOp.apply_moves p.handles op).countOk (h pk p hp)
  | invalidateForSlot s =>
    intro pk q hq
    simp only [Writer.apply, Procs.mapTables, Option.map_eq_some_iff] at hq
    obtain ⟨p, hp, rfl⟩ := hq
    dsimp only
    exact (moves_invalidateSlotCb s p.handles).countOk (h pk p hp)

theorem tablesOk_run (files : Fin 32 → Option RamfsFile) (ws : List Writer) :
    TablesOk (runFrom Writer.apply (bootKernel files) ws).procs := by
  refine runFrom_inv (fun k : Kernel => TablesOk k.procs) (fun k w hk => hk.apply w) ?_ ws
  intro pk p hp
  simp only [bootKernel, bootProcs, update_apply] at hp
  split_ifs at hp
  cases hp
  exact countOk_init {}

/-! ### The table is full -/

/-- The call passes the checks on its arguments that come before the search for a free
entry. -/
def AllocCall.Checked (t : Table) : AllocCall KObj KSlot → Prop
  | .alloc type _ object => type ≠ .invalid ∧ object ≠ .null
  | .allocResource _ _ _ => True
  | .duplicate src newRights =>
    ∃ s, resolve t src = .ok s ∧ newRights &&& ~~~(t.entries s).rights = 0 ∧ (t.entries s).object ≠ .null

theorem resolve_ne_enomem {e : Err} (he : resolve t h = .error e) : e ≠ .enomem := by
  unfold resolve at he
  repeat' split at he
  all_goals cases he
  all_goals decide

theorem nxHandleDuplicate_enomem_iff {src : Handle} {newRights : UInt32} :
    nxHandleDuplicate t src newRights = .error .enomem ↔
      (∃ s, resolve t src = .ok s ∧ newRights &&& ~~~(t.entries s).rights = 0 ∧
        (t.entries s).object ≠ .null) ∧ t.firstFree = none := by
  unfold nxHandleDuplicate
  cases hs : resolve t src with
  | error e =>
    have : e ≠ .enomem := resolve_ne_enomem hs
    simp [this]
  | ok s =>
    have hlive : (t.entries s).type ≠ .invalid := (resolve_eq_ok_iff.mp hs).2.1
    simp only [Except.ok.injEq, exists_eq_left']
    split_ifs with hr
    · simp [hr]
    · simp [nxHandleAllocWithSlot_error_iff, nxHandleAlloc_enomem_iff, hlive, not_not.mp hr]

/-- An allocation that is otherwise in order fails for want of an entry when all are in
use. -/
theorem AllocCall.enomem_iff (t : Table) (c : AllocCall KObj KSlot) :
    c.run t = .error .enomem ↔ AllocCall.Checked t c ∧ t.firstFree = none := by
  cases c with
  | alloc type rights object => exact nxHandleAlloc_enomem_iff.trans and_assoc.symm
  | allocResource rights id target => simp [AllocCall.run, AllocCall.Checked,
      nxHandleAllocResource_error_iff]
  | duplicate src newRights => exact nxHandleDuplicate_enomem_iff

/-- **In every state that the writers of handle tables reach, each process's table counts
its entries in use, and an allocation fails with `NX_ENOMEM` exactly when that count is
the capacity** (and the call had passed its argument checks). -/
theorem table_count_and_enomem (files : Fin 32 → Option RamfsFile) (ws : List Writer) (pk : ProcKey)
    (p : Process) (hp : (runFrom Writer.apply (bootKernel files) ws).procs.slot pk = some p) :
    p.handles.count = countOf HandleEntry.Live p.handles.entries ∧
      ∀ c : AllocCall KObj KSlot, c.run p.handles = .error .enomem ↔
        AllocCall.Checked p.handles c ∧ nxHandleTableCount p.handles = nxHandleTableCapacity := by
  have hcount : CountOk p.handles := tablesOk_run files ws pk p hp
  refine ⟨hcount, fun c => ?_⟩
  rw [AllocCall.enomem_iff, firstFree_none_iff, ← countOf_eq_card_iff, nxHandleTableCount, hcount]
  simp [nxHandleTableCapacity]

/-- The first process, which has the console and a pipe. -/
def pipeRun : List Writer :=
  [.step (.create [] true true), .step (.call (some 0) (.pipe 0x48000000 true))]

/-- Its five entries, by the theorem. -/
theorem table_count_after_pipe :
    ∃ p, (runFrom Writer.apply (bootKernel fun _ => none) pipeRun).procs.slot (some 0) = some p ∧
      p.handles.count = 5 ∧ countOf HandleEntry.Live p.handles.entries = 5 ∧
      nxHandleAllocResource p.handles 0 0 none ≠ .error .enomem := by
  obtain ⟨p, hp, hfive⟩ : ∃ p, (runFrom Writer.apply (bootKernel fun _ => none) pipeRun).procs.slot
    (some 0) = some p ∧
      p.handles.count = 5 := ⟨_, rfl, rfl⟩
  obtain ⟨hcount, hfull⟩ := table_count_and_enomem _ _ _ p hp
  refine ⟨p, hp, hfive, hcount ▸ hfive, fun h => ?_⟩
  have := ((hfull (.allocResource 0 0 none)).mp h).2
  rw [nxHandleTableCount, hfive] at this
  exact absurd this (by decide)

end Nonux.Syscall
