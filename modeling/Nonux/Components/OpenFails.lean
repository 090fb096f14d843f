import Nonux.Components.FsSwap

/-!
# An open that fails

An open of the vfs takes a wrapper, then may make a file, and then takes an entry of the driver's
pool. When the last step fails the file would stay. It cannot fail: every open of the driver is
wrapped, and the driver has more of them than there are wrappers (`exists_free_open`). So an open
that returns 0 has changed nothing, in every state that calls lead to (`open_zero_unchanged`). The
two filesystems stay bound to their slots, as in `VfsSimple`.
-/

namespace Nonux.Components

open Nonux.Framework Nonux.Lib Nonux.Syscall

/-- `ramfs_classify`: `none` is a missing path. -/
def ramfsClassify (s : RamfsState) (path : Path) : Option FsKind :=
  if path = [slash] then some .dir
  else
    let named := (List.finRange 32).findSome? fun i => (s.files i).bind fun f => if f.name =
      path then some f.kind else none
    let hasChild := (List.finRange 32).any fun i => (s.files i).any fun f => decide
      (path ++ [slash] <+: f.name)
    match named with
    | some kind => some kind
    | none => if hasChild then some .dir else none

/-- `ramfs_op_mkdir` -/
def ramfsOpMkdir (s : RamfsState) (path : Path) : RamfsState × Except Err Unit :=
  if path.head? ≠ some slash ∨ path = [slash] then (s, .error .einval)
  else if (ramfsFind s path).isSome then (s, .error .eexist)
  else if ramfsClassify s path = some .dir then (s, .error .eexist)
  else
    match ramfsCreateEntry s path .dir with
    | none => (s, .error .enomem)
    | some (s, _) => (s, .ok ())

/-- A call to the vfs that can change something. -/
inductive VfsCall where
  | open (ps : Procs) (path : Path) (flags : UInt32)
  | close (id : UInt32)
  | retain (id : UInt32)
  | io (id : UInt32) (op : FsIo)
  | mkdir (path : Path)

/-- The state after a read, a write or a seek of the driver's open. -/
def Vfs.driverIo (v : Vfs) (w : VfsOpen) (op : FsIo) : Vfs :=
  match w.mount, op with
  | .root, .read cap => { v with ramfs := (ramfsOpRead v.ramfs w.driverId cap).1 }
  | .root, .write len => { v with ramfs := (ramfsOpWrite v.ramfs w.driverId len).1 }
  | .root, .seek offset whence => { v with ramfs := (ramfsOpSeek v.ramfs w.driverId offset whence).1 }
  | .proc, .read cap => { v with procfs := (procfsOpRead v.procfs w.driverId cap).1 }
  | .proc, .write len => { v with procfs := (procfsOpWrite v.procfs w.driverId len).1 }
  | .proc, .seek offset whence => { v with procfs := (procfsOpSeek v.procfs w.driverId offset whence).1 }

/-- The state after a call. A directory is made in ramfs only. -/
def Vfs.call (v : Vfs) : VfsCall → Vfs
  | .open ps path flags => (vfsSimpleOpen v ps path flags).1
  | .close id => vfsSimpleClose v id
  | .retain id => vfsSimpleRetain v id
  | .io id op => ((vfsSimpleIdToWrap v id).map fun w => v.driverIo w.val op).getD v
  | .mkdir path =>
    if path.head? = some slash ∧ mountForPath path = .root then
      { v with ramfs := (ramfsOpMkdir v.ramfs path).1 } else v

variable {v : Vfs} {c : UInt32 → ℕ}

theorem VfsMatches.driverIo (h : VfsMatches v c) (w : VfsOpen) (op : FsIo) :
    VfsMatches (v.driverIo w op) c := by
  have hroot := FsComp.refsOf_nxFsIo (.ramfs v.ramfs) w.driverId op
  have hproc := FsComp.refsOf_nxFsIo (.procfs v.procfs) w.driverId op
  unfold Vfs.driverIo
  cases w.mount <;> cases op <;> refine h.congr rfl (funext fun m => ?_) <;> cases m <;>
    first | rfl | exact hroot | exact hproc

theorem ramfsOpMkdir_opens (s : RamfsState) (path : Path) : (ramfsOpMkdir s path).1.opens = s.opens := by
  unfold ramfsOpMkdir
  split_ifs
  · rfl
  · rfl
  · rfl
  · split
    · rfl
    · next hmade => exact ramfsCreateEntry_opens hmade

/-- The wrappers and the drivers' opens match after every call, for any ids. -/
theorem VfsMatches.call (h : VfsMatches v c) (a : VfsCall) : ∃ c', VfsMatches (v.call a) c' := by
  have hused {id : UInt32} {w : RefSlot VfsOpen} (hw : vfsSimpleIdToWrap v id = some w) : 0 < c id := by
    have hrefs : v.wrappers.refsOf id = some w.refs := by
      obtain ⟨i, hi, hwi⟩ := Option.bind_eq_some_iff.mp hw
      simp [RefPool.refsOf, hi, hwi]
    by_contra hzero
    rw [h.counts id, if_pos (by omega)] at hrefs
    cases hrefs
  cases a with
  | «open» ps path flags =>
    rcases h.open ps path flags with ⟨-, h'⟩ | ⟨-, h'⟩ <;> exact ⟨_, h'⟩
  | close id =>
    cases hw : vfsSimpleIdToWrap v id with
    | none => exact ⟨c, by simpa [Vfs.call, vfsSimpleClose, hw] using h⟩
    | some w =>
      have hc : c = (fun id' => c id' - oneRef (some id) id') + oneRef (some id) := by
        have := hused hw
        funext id'
        by_cases hid : id = id'
        · subst hid
          simp
          omega
        · simp [oneRef_some_of_ne hid]
      exact ⟨_, VfsMatches.close (hc ▸ h)⟩
  | retain id =>
    cases hw : vfsSimpleIdToWrap v id with
    | none => exact ⟨c, by simpa [Vfs.call, vfsSimpleRetain, hw] using h⟩
    | some w => exact ⟨_, h.retain (hused hw)⟩
  | io id op =>
    cases hw : vfsSimpleIdToWrap v id with
    | none => exact ⟨c, by simpa [Vfs.call, hw] using h⟩
    | some w => exact ⟨c, by simpa [Vfs.call, hw] using h.driverIo w.val op⟩
  | mkdir path =>
    simp only [Vfs.call]
    split_ifs
    · refine ⟨c, h.congr rfl (funext fun m => funext fun id => ?_)⟩
      cases m <;> simp [Vfs.driverRefs, ramfsOpMkdir_opens]
    · exact ⟨c, h⟩

/-- The driver's opens are wrapped, each by a wrapper of its own, so some are free. -/
theorem VfsMatches.exists_free_open (h : VfsMatches v c) : ∃ k, v.ramfs.opens k = none := by
  by_contra hfull
  have hwrap (k : Fin 128) : ∃ i w, v.wrappers i = some w ∧ w.val = ⟨.root, idxToId k⟩ := by
    obtain ⟨o, ho⟩ := Option.ne_none_iff_exists'.mp fun hk => hfull ⟨k, hk⟩
    exact h.wrapped .root (idxToId k) o.refs (by simp [Vfs.driverRefs, RefPool.refsOf_idxToId, ho])
  choose i w hi hw using hwrap
  have hinj : Function.Injective i := fun k k' heq => by
    have hval : w k = w k' := Option.some_inj.mp ((hi k).symm.trans (heq ▸ hi k'))
    have hid : idxToId k = idxToId k' := congrArg VfsOpen.driverId ((hw k).symm.trans (hval ▸ hw k'))
    exact Option.some_inj.mp (((idToIdx_eq_some_iff (by decide)).mpr rfl).symm.trans
      ((idToIdx_eq_some_iff (by decide)).mpr hid))
  simpa using Fintype.card_le_of_injective i hinj

theorem ramfsOpOpen_zero {s : RamfsState} {path : Path} {flags : UInt32} (hfree : ∃ k, s.opens k = none)
    (hzero : (ramfsOpOpen s path flags).2 = 0) : (ramfsOpOpen s path flags).1 = s := by
  obtain ⟨k, hk⟩ := hfree
  unfold ramfsOpOpen at hzero ⊢
  split_ifs at hzero ⊢
  · rfl
  · rfl
  cases hfile : ramfsOpenFile s path flags with
  | none => rfl
  | some r =>
    have hopens : r.1.opens = s.opens := ramfsOpenFile_opens hfile
    obtain ⟨i, hi⟩ : ∃ i, r.1.opens.firstFree = some i := Option.isSome_iff_exists.mp
      (List.find?_isSome.mpr ⟨k, List.mem_finRange k, by rw [hopens, hk]; rfl⟩)
    simp only [hfile, RefPool.alloc, hi, Option.map_some] at hzero
    exact absurd hzero (idxToId_ne_zero (by decide) i)

theorem nxFsOpen_zero (h : VfsMatches v c) (ps : Procs) (m : Mount) (path : Path) (flags : UInt32)
    (hzero : (nxFsOpen v ps m path flags).2 = 0) : (nxFsOpen v ps m path flags).1 = v := by
  cases m with
  | root => exact congrArg (fun r => { v with ramfs := r }) (ramfsOpOpen_zero h.exists_free_open hzero)
  | proc =>
    rcases procfsOpOpen_cases v.procfs ps path flags with ⟨-, hopens⟩ | ⟨i, -, -, hid, -⟩
    · exact congrArg (fun o => { v with procfs := ⟨o⟩ }) hopens
    · exact absurd (hid.symm.trans hzero) (idxToId_ne_zero (by decide) i)

/-- **An open that fails changes nothing**: not the files, not the opens of the drivers, not the
wrappers. -/
theorem open_zero_unchanged (files : Fin 32 → Option RamfsFile) (calls : List VfsCall) (ps : Procs)
    (path : Path) (flags : UInt32)
    (hzero : (vfsSimpleOpen (runFrom Vfs.call { ramfs := { files } } calls) ps path flags).2 = 0) :
    (vfsSimpleOpen (runFrom Vfs.call { ramfs := { files } } calls) ps path flags).1 =
      runFrom Vfs.call { ramfs := { files } } calls := by
  obtain ⟨c, h⟩ : ∃ c, VfsMatches (runFrom Vfs.call { ramfs := { files } } calls) c :=
    runFrom_inv (fun v => ∃ c, VfsMatches v c) (fun _ a ⟨_, h⟩ => h.call a)
      ⟨0, vfsMatches_empty files⟩ calls
  generalize runFrom Vfs.call { ramfs := { files } } calls = v at h hzero ⊢
  unfold vfsSimpleOpen at hzero ⊢
  split_ifs at hzero ⊢ with habs
  · rfl
  cases hfree : v.wrappers.firstFree with
  | none => rfl
  | some i =>
    simp only [hfree] at hzero ⊢
    split_ifs at hzero ⊢ with hid
    · exact nxFsOpen_zero h ps _ path flags hid
    · exact absurd hzero (idxToId_ne_zero (by decide) i)

/-- A file that is not there, without `NX_FS_OPEN_CREATE`, after another was made. -/
theorem open_zero_unchanged_missing :
    (vfsSimpleOpen (runFrom Vfs.call {} [.open bootProcs [47, 97] nxFsOpenCreate]) bootProcs
      [47, 98] nxFsOpenRead).1 = runFrom Vfs.call {} [.open bootProcs [47, 97] nxFsOpenCreate] :=
  open_zero_unchanged (fun _ => none) [.open bootProcs [47, 97] nxFsOpenCreate] bootProcs [47, 98]
    nxFsOpenRead (by decide +kernel)

end Nonux.Components
