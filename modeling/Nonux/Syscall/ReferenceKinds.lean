import Nonux.Syscall.References

/-!
# Channels, open files and directory cursors

The three kinds of object that handle entries keep alive, each with what it takes to be
a `RefKind`, and so each with a theorem about every run of the kernel:

* `channel_refs_right`: channels have the counts of the CHANNEL entries in all processes;
* `vfs_refs_right`: vfs wrappers and filesystem opens have those of the RESOURCE entries;
* `cursor_frees_right`: a cursor is allocated exactly while a DIR entry names it.

Each holds of the runs that meet the condition of `References`, and for each kind a run
that does not is shown to go wrong: a fork that fails late leaks a channel reference,
an exit leaks an open file, and a close of one of two copies of a directory handle
frees the cursor under the other.
-/

namespace Nonux.Syscall

open Nonux.Components Nonux.Framework Nonux.Lib Option

/-! ### Channels -/

/-- The endpoint a CHANNEL entry names. -/
def channelName (e : Entry) : Option EndpointRef :=
  match e.type, e.object with
  | .channel, .ptr (.endpoint r) => some r
  | _, _ => none

variable {e : Entry}

theorem channelName_some {r : EndpointRef} (h : channelName e = some r) :
    e.type = .channel ∧ e.object = .ptr (.endpoint r) := by
  unfold channelName at h
  split at h
  · next htype hobj => exact ⟨htype, by rw [hobj, some.inj h]⟩
  · exact absurd h (by simp)

variable (o : Objects)

/-- A close or a retain moves the count of the endpoint named, and no other. -/
theorem closeObject_chans (e : Entry) :
    (closeObject o e).chans = match channelName e with
      | some r => nxChannelEndpointClose o.chans r
      | none => o.chans := by
  unfold closeObject channelName nxVfsClose
  split <;> (repeat' split) <;> simp_all

theorem retainObject_chans (e : Entry) :
    (retainObject o e).chans = match channelName e with
      | some r => nxChannelEndpointRetain o.chans r
      | none => o.chans := by
  unfold retainObject channelName nxVfsRetain
  split <;> (repeat' split) <;> simp_all

/-- Channel endpoints, with the counts of `Matches`. -/
def channelKind : RefKind where
  Ref := EndpointRef
  decEq := inferInstance
  name := channelName
  name_copy := fun e rights gen => rfl
  name_free := fun e he => eq_none_iff_forall_ne_some.mpr fun r hr =>
    he (by simp [HandleEntry.Live, (channelName_some hr).1])
  name_console := fun e _ htype => by simp [channelName, htype]
  counted := true
  Ok := fun o c => Matches o.chans c
  close_ok := fun {o c e} _ h => by
    rw [closeObject_chans]
    cases hn : channelName e with
    | none => simpa [hn] using h
    | some r => exact Matches.close (by rwa [hn] at h)
  retain_ok := fun {o c e} hpos h => by
    rw [retainObject_chans]
    cases hn : channelName e with
    | none => simpa using h
    | some r => exact h.retain (hpos r hn)
  create_ok := fun h => h.create
  open_ok := fun {o c} ps path flags h => by
    by_cases hz : (vfsSimpleOpen o.vfs ps path flags).2 = 0
    · exact .inl ⟨hz, h⟩
    · exact .inr ⟨hz, by simpa [channelName, fileEntry] using h⟩
  cursor_ok := fun {o c} cur h =>
    ⟨fun r hr => by simp [channelName, dirEntry] at hr, by simpa [channelName, dirEntry] using h⟩
  cookie_ok := fun d f h => h
  uncounted_dir := fun e hc => by simp at hc

/-- **In every state of a run that meets the condition, every endpoint counts the CHANNEL
entries that name it, is closed exactly when there are none, and a channel was freed
once if neither endpoint has any, and otherwise never.** -/
theorem channel_refs_right (files : Fin 32 → Option RamfsFile) (ops pre : List KOp)
    (hok : RunOk knext channelKind.StepOk (bootKernel files) ops) (hpre : pre <+: ops) :
    Matches (runFrom knext (bootKernel files) pre).objs.chans
      (channelKind.total (runFrom knext (bootKernel files) pre).procs) :=
  RefKind.run hok hpre matches_empty

/-- A process makes a pipe and forks; `task` says whether the child gets a task. -/
def pipeThenFork (task : Bool) : List KOp :=
  [.create [] true true, .call (some 0) (.pipe 0x48000000 true), .fork (some 0) true true task]

/-- The fork succeeds, by the theorem: the reading end has two references. -/
theorem channel_refs_after_fork :
    RunOk knext channelKind.StepOk (bootKernel fun _ => none) (pipeThenFork true) ∧
      Matches (runFrom knext (bootKernel fun _ => none) (pipeThenFork true)).objs.chans
        (channelKind.total (runFrom knext (bootKernel fun _ => none) (pipeThenFork true)).procs) := by
  have hok : RunOk knext channelKind.StepOk (bootKernel fun _ => none) (pipeThenFork true) := by
    refine ⟨trivial, fun p hp => ?_, fun _ _ htask => by simp at htask, trivial⟩
    cases hp
    intro _ _ _ i hi
    cases hi
    exact fun hcopy => absurd rfl hcopy
  exact ⟨hok, channel_refs_right _ _ _ hok List.prefix_rfl⟩

/-- **The fork fails for want of a task**: the child's table is gone, and its references
are still counted. -/
theorem channel_refs_leaked :
    ∃ cell, (runFrom knext (bootKernel fun _ => none) (pipeThenFork false)).objs.chans.get?
      0 = some cell ∧ (cell.val.e 0).handleRefs = 2 ∧
      channelKind.total (runFrom knext (bootKernel fun _ => none) (pipeThenFork false)).procs
      (0, 0) = 1 := by
  refine ⟨_, rfl, rfl, ?_⟩
  decide +kernel

/-! ### Files open in the vfs -/

/-- The vfs id a RESOURCE entry that targets the vfs holds. -/
def vfsName (e : Entry) : Option UInt32 :=
  match e.type, e.object, e.target with
  | .resource, .id n, some .vfs => some n
  | _, _, _ => none

theorem vfsName_some {n : UInt32} (h : vfsName e = some n) :
    e.type = .resource ∧ e.object = .id n ∧ e.target = some .vfs := by
  unfold vfsName at h
  split at h
  · next htype hobj htgt => exact ⟨htype, by rw [hobj, some.inj h], htgt⟩
  · exact absurd h (by simp)

theorem closeObject_vfs (e : Entry) :
    (closeObject o e).vfs = match vfsName e with
      | some n => vfsSimpleClose o.vfs n
      | none => o.vfs := by
  unfold closeObject vfsName nxVfsClose
  split <;> (repeat' split) <;> simp_all

/-- A retain skips the id 0, which the vfs never gives out. -/
theorem retainObject_vfs (e : Entry) :
    (retainObject o e).vfs = match vfsName e with
      | some n => if n = 0 then o.vfs else vfsSimpleRetain o.vfs n
      | none => o.vfs := by
  obtain ⟨type, rights, object, gen, target⟩ := e
  cases type with
  | channel => rcases object with ⟨r | d⟩ | n <;> rfl
  | resource =>
    cases object with
    | ptr p => rfl
    | id n =>
      cases target with
      | none => rfl
      | some slot => cases slot <;> by_cases hn : n = 0 <;> simp [retainObject, vfsName, nxVfsRetain, hn]
  | _ => rfl

/-- Open files, with the counts of `VfsMatches`. -/
def vfsKind : RefKind where
  Ref := UInt32
  decEq := inferInstance
  name := vfsName
  name_copy := fun e rights gen => rfl
  name_free := fun e he => eq_none_iff_forall_ne_some.mpr fun n hn =>
    he (by simp [HandleEntry.Live, (vfsName_some hn).1])
  name_console := fun e htgt _ => eq_none_iff_forall_ne_some.mpr fun n hn => by
    simp [(vfsName_some hn).2.2] at htgt
  counted := true
  Ok := fun o c => VfsMatches o.vfs c
  close_ok := fun {o c e} _ h => by
    rw [closeObject_vfs]
    cases hn : vfsName e with
    | none => simpa [hn] using h
    | some n => exact VfsMatches.close (by rwa [hn] at h)
  retain_ok := fun {o c e} hpos h => by
    rw [retainObject_vfs]
    cases hn : vfsName e with
    | none => simpa using h
    | some n =>
      -- A wrapper's id is not 0.
      have hne : n ≠ 0 := by
        obtain ⟨i, w, hid, -⟩ := h.wrapper (hpos n hn)
        rw [hid]
        exact idxToId_ne_zero (by decide) i
      simpa [hne] using h.retain (hpos n hn)
  create_ok := fun h => by simpa [vfsName, channelEntry] using h
  open_ok := fun ps path flags h => h.open ps path flags
  cursor_ok := fun {o c} cur h =>
    ⟨fun r hr => by simp [vfsName, dirEntry] at hr, by simpa [vfsName, dirEntry] using h⟩
  cookie_ok := fun d f h => h
  uncounted_dir := fun e hc => by simp at hc

/-- **In every state of a run that meets the condition, the count of a vfs wrapper, that
of the filesystem open it wraps and the number of RESOURCE entries with its id are the
same, and what has no such entry is not in use.** -/
theorem vfs_refs_right (files : Fin 32 → Option RamfsFile) (ops pre : List KOp)
    (hok : RunOk knext vfsKind.StepOk (bootKernel files) ops) (hpre : pre <+: ops) :
    VfsMatches (runFrom knext (bootKernel files) pre).objs.vfs
      (vfsKind.total (runFrom knext (bootKernel files) pre).procs) :=
  RefKind.run hok hpre (vfsMatches_empty files)

/-- User memory with a path at the bottom of the window. -/
def userPath (path : Path) : UserMem := fun a => path.getD (a - mmuUserWindowBase).toNat 0

/-- A process creates the file `/f` and then makes the calls `calls`. -/
def openThen (calls : List KOp) : List KOp :=
  .create [] true true :: .call (some 0) (.open (userPath [47, 102]) mmuUserWindowBase 7 true) :: calls

/-- A file that is opened and copied, by the theorem. -/
theorem vfs_refs_after_dup :
    RunOk knext vfsKind.StepOk (bootKernel fun _ => none) (openThen [.call (some 0) (.fcntl 4 0 0)]) ∧
      VfsMatches (runFrom knext (bootKernel fun _ => none)
        (openThen [.call (some 0) (.fcntl 4 0 0)])).objs.vfs
        (vfsKind.total (runFrom knext (bootKernel fun _ => none)
          (openThen [.call (some 0) (.fcntl 4 0 0)])).procs) := by
  have hok : RunOk knext vfsKind.StepOk (bootKernel fun _ => none)
      (openThen [.call (some 0) (.fcntl 4 0 0)]) :=
    ⟨trivial, fun _ _ => trivial, fun _ _ => trivial, trivial⟩
  exact ⟨hok, vfs_refs_right _ _ _ hok List.prefix_rfl⟩

/-- **The process exits with the file open**: no entry names the wrapper, and it stays in
use. -/
theorem vfs_refs_leaked :
    ((runFrom knext (bootKernel fun _ => none)
      (openThen [.exit (some 0) 0])).objs.vfs.wrappers 0).map (·.refs) = some 1 ∧
      vfsKind.total (runFrom knext (bootKernel fun _ => none) (openThen [.exit (some 0) 0])).procs
      (1 : UInt32) = 0 := by
  decide +kernel

/-! ### Directory cursors -/

/-- The cursor a DIR entry names. -/
def cursorName (e : Entry) : Option ℕ :=
  match e.type, e.object with
  | .dir, .ptr (.cursor d) => some d
  | _, _ => none

theorem cursorName_some {d : ℕ} (h : cursorName e = some d) :
    e.type = .dir ∧ e.object = .ptr (.cursor d) := by
  unfold cursorName at h
  split at h
  · next htype hobj => exact ⟨htype, by rw [hobj, some.inj h]⟩
  · exact absurd h (by simp)

theorem closeObject_cursors (e : Entry) :
    (closeObject o e).cursors = match cursorName e with
      | some d => o.cursors.free d
      | none => o.cursors := by
  unfold closeObject cursorName nxVfsClose
  split <;> (repeat' split) <;> simp_all

theorem retainObject_cursors (e : Entry) : (retainObject o e).cursors = o.cursors := by
  unfold retainObject nxVfsRetain
  repeat' split
  all_goals rfl

/-- A cursor is allocated and named, or freed once and named by nothing. -/
structure CursorsOk (cs : Heap DirCursor) (c : ℕ → ℕ) : Prop where
  once : ∀ d cell, cs.get? d = some cell → (cell.frees = 0 ∧ 0 < c d) ∨ (cell.frees = 1 ∧ c d = 0)
  /-- Nothing names a cursor that was never allocated. -/
  exist : ∀ d, 0 < c d → ∃ cell, cs.get? d = some cell

theorem cursorsOk_empty : CursorsOk {} 0 where
  once := fun d cell hd => by simp [Heap.get?] at hd
  exist := fun d hd => by simp at hd

variable {cs : Heap DirCursor} {c : ℕ → ℕ}

theorem CursorsOk.fresh (h : CursorsOk cs c) : c cs.next = 0 := by
  by_contra hne
  obtain ⟨cell, hcell⟩ := h.exist cs.next (Nat.pos_of_ne_zero hne)
  rw [Heap.get?_eq_none_of_next_le le_rfl] at hcell
  exact absurd hcell (by simp)

theorem CursorsOk.alloc (h : CursorsOk cs c) (cur : DirCursor) :
    CursorsOk (cs.alloc cur) (c + oneRef (some cs.next)) := by
  constructor
  · intro d cell hd
    rw [Heap.get?_alloc] at hd
    split_ifs at hd with hnew
    · subst hnew
      cases hd
      exact .inl ⟨rfl, by simp⟩
    · simpa [oneRef_some_of_ne (Ne.symm hnew)] using h.once d cell hd
  · intro d hpos
    rw [Heap.get?_alloc]
    split_ifs with hnew
    · exact ⟨_, rfl⟩
    · exact h.exist d (by simpa [oneRef_some_of_ne (Ne.symm hnew)] using hpos)

/-- The close of the only entry that names a cursor. -/
theorem CursorsOk.free {d : ℕ} (h : CursorsOk cs (c + oneRef (some d))) (hsole : c d = 0) :
    CursorsOk (cs.free d) c := by
  have hother : ∀ d', d' ≠ d → (c + oneRef (some d)) d' = c d' := fun d' hne => by
    simp [oneRef_some_of_ne (Ne.symm hne)]
  constructor
  · intro d' cell hd'
    rw [Heap.get?_free] at hd'
    split_ifs at hd' with heq
    · subst heq
      obtain ⟨old, hold, rfl⟩ := map_eq_some_iff.mp hd'
      rcases h.once d' old hold with ⟨hfrees, -⟩ | ⟨-, hzero⟩
      · exact .inr ⟨by simp [hfrees], hsole⟩
      · simp at hzero
    · have := h.once d' cell hd'
      rwa [hother d' heq] at this
  · intro d' hpos
    have hne : d' ≠ d := fun heq => by rw [heq] at hpos; omega
    rw [Heap.get?_free, if_neg hne]
    exact h.exist d' (by rwa [hother d' hne])

/-- One more entry for a cursor that is named. -/
theorem CursorsOk.copy {d : ℕ} (h : CursorsOk cs c) (hpos : 0 < c d) :
    CursorsOk cs (c + oneRef (some d)) := by
  have hzero : ∀ d', (c + oneRef (some d)) d' = 0 ↔ c d' = 0 := fun d' => by
    by_cases heq : d = d'
    · subst heq; simp; omega
    · simp [oneRef_some_of_ne heq]
  constructor
  · intro d' cell hd'
    rcases h.once d' cell hd' with ⟨hfrees, hp⟩ | ⟨hfrees, hz⟩
    · exact .inl ⟨hfrees, Nat.pos_of_ne_zero fun h0 => by rw [hzero] at h0; omega⟩
    · exact .inr ⟨hfrees, (hzero d').mpr hz⟩
  · intro d' hp
    exact h.exist d' (Nat.pos_of_ne_zero fun h0 => by rw [← hzero] at h0; omega)

/-- A store to a cursor allocates and frees nothing. -/
theorem CursorsOk.modify (h : CursorsOk cs c) (d : ℕ) (f : DirCursor → DirCursor) :
    CursorsOk (cs.modify d f) c := by
  constructor
  · intro d' cell hd'
    rw [Heap.get?_modify] at hd'
    split_ifs at hd'
    · obtain ⟨old, hold, rfl⟩ := map_eq_some_iff.mp hd'
      exact h.once d' old hold
    · exact h.once d' cell hd'
  · intro d' hp
    obtain ⟨cell, hcell⟩ := h.exist d' hp
    rw [Heap.get?_modify, hcell]
    split_ifs
    · exact ⟨_, rfl⟩
    · exact ⟨_, rfl⟩

/-- Directory cursors, which have no counts. -/
def cursorKind : RefKind where
  Ref := ℕ
  decEq := inferInstance
  name := cursorName
  name_copy := fun e rights gen => rfl
  name_free := fun e he => eq_none_iff_forall_ne_some.mpr fun d hd =>
    he (by simp [HandleEntry.Live, (cursorName_some hd).1])
  name_console := fun e _ htype => by simp [cursorName, htype]
  counted := false
  Ok := fun o c => CursorsOk o.cursors c
  close_ok := fun {o c e} hsole h => by
    rw [closeObject_cursors]
    cases hn : cursorName e with
    | none => simpa [hn] using h
    | some d => exact CursorsOk.free (by rwa [hn] at h) (hsole rfl d hn)
  retain_ok := fun {o c e} hpos h => by
    rw [retainObject_cursors]
    cases hn : cursorName e with
    | none => simpa using h
    | some d => exact h.copy (hpos d hn)
  create_ok := fun h => by simpa [cursorName, channelEntry] using h
  open_ok := fun {o c} ps path flags h => by
    by_cases hz : (vfsSimpleOpen o.vfs ps path flags).2 = 0
    · exact .inl ⟨hz, h⟩
    · exact .inr ⟨hz, by simpa [cursorName, fileEntry] using h⟩
  cursor_ok := fun {o c} cur h => ⟨fun d hd => by cases hd; exact h.fresh, h.alloc cur⟩
  cookie_ok := fun d f h => h.modify d f
  uncounted_dir := fun e _ hne => by
    obtain ⟨d, hd⟩ := ne_none_iff_exists'.mp hne
    exact (cursorName_some hd).1

/-- **In every state of a run that meets the condition, a directory cursor is allocated
exactly while a DIR entry names it, and it is freed once.** -/
theorem cursor_frees_right (files : Fin 32 → Option RamfsFile) (ops pre : List KOp)
    (hok : RunOk knext cursorKind.StepOk (bootKernel files) ops) (hpre : pre <+: ops) :
    CursorsOk (runFrom knext (bootKernel files) pre).objs.cursors
      (cursorKind.total (runFrom knext (bootKernel files) pre).procs) :=
  RefKind.run hok hpre cursorsOk_empty

/-- A process opens the root directory and copies the handle. -/
def openDirTwice : List KOp :=
  [.create [] true true, .call (some 0) (.open (userPath [47]) mmuUserWindowBase 1 true),
    .call (some 0) (.fcntl 4 0 0)]

/-- The two entries of the cursor, by the theorem. -/
theorem cursor_frees_after_dup :
    RunOk knext cursorKind.StepOk (bootKernel fun _ => none) openDirTwice ∧
      CursorsOk (runFrom knext (bootKernel fun _ => none) openDirTwice).objs.cursors
        (cursorKind.total (runFrom knext (bootKernel fun _ => none) openDirTwice).procs) := by
  have hok : RunOk knext cursorKind.StepOk (bootKernel fun _ => none) openDirTwice :=
    ⟨trivial, fun _ _ => trivial, fun _ _ => trivial, trivial⟩
  exact ⟨hok, cursor_frees_right _ _ _ hok List.prefix_rfl⟩

/-- **The process closes the first handle**: the cursor is freed, and the copy names it
still. -/
theorem cursor_freed_under_copy :
    ((runFrom knext (bootKernel fun _ => none)
        (openDirTwice ++ [.call (some 0) (.handleClose 4)])).objs.cursors.get? 0).map
          (·.frees) = some 1 ∧
      cursorKind.total (runFrom knext (bootKernel fun _ => none)
        (openDirTwice ++ [.call (some 0) (.handleClose 4)])).procs (0 : ℕ) = 1 := by
  decide +kernel

end Nonux.Syscall
