import Nonux.Components.VfsSimple

/-!
# Replacing a filesystem under the vfs (`components/vfs_simple/vfs_simple.c`)

A wrapper of `vfs_simple` keeps the name of a mount and the id that the filesystem gave. Each
operation looks the mount up again, so after `nx_config_swap_component` has put another component
there, the id goes to that one, which counts its own opens from 1 as well.

Here the filesystems are components that can be bound to either mount (`Mounts`), with the reads,
writes and seeks of the two drivers; with the components fixed these are the operations of
`VfsSimple` (`vfsSimpleOpen_ofVfs` and the two after it). A `SwapRun` numbers the opens and notes,
of each operation on an open of a filesystem, which open made it and for which open of the vfs.
`swap_keeps_opens_apart` says that these are the same in any run in which a mount has no open left
when its component is replaced.
-/

namespace Nonux.Components

open Nonux.Framework Nonux.Lib Nonux.Syscall Function Option

/-! ### Reads, writes and seeks -/

/-- `id_to_open`, and `procfs_id_to_open`. -/
def idToOpen {n : ℕ} {α : Type} (p : RefPool n α) (id : UInt32) : Option (Fin n × RefSlot α) :=
  (idToIdx n id).bind fun i => (p i).map fun op => (i, op)

/-- The pool with another value in a slot, whose count stays. -/
def putOpen {n : ℕ} {α : Type} (p : RefPool n α) (i : Fin n) (op : RefSlot α) (val : α) : RefPool n α :=
  update p i (some { op with val })

/-- A store to an open that an id names keeps every count. -/
theorem refsOf_putOpen {n : ℕ} {α : Type} {p : RefPool n α} {id : UInt32} {i : Fin n} {op : RefSlot α}
    (h : idToOpen p id = some (i, op)) (val : α) : (putOpen p i op val).refsOf = p.refsOf := by
  have hop : p i = some op := by
    obtain ⟨j, -, hj⟩ := bind_eq_some_iff.mp h
    obtain ⟨o, ho, heq⟩ := map_eq_some_iff.mp hj
    cases heq
    exact ho
  funext id'
  unfold RefPool.refsOf putOpen
  congr 1
  funext j
  by_cases hj : j = i
  · subst hj
    simp [hop]
  · simp [hj]

/-- Where a seek ends, from the cursor of an open and the size of the file. -/
def seekTo (cursor size : ℕ) (offset whence : ℤ) : Option ℕ :=
  let base : Option ℤ := if whence = 0 then some 0 else if whence = 1 then some cursor
    else if whence = 2 then some size else none
  base.bind fun base => if base + offset < 0 ∨ size < base + offset then none
    else some (base + offset).toNat

/-- `RAMFS_FILE_CAP`. -/
def ramfsFileCap : ℕ := 4 * 1024 * 1024

/-- The size of a file of the table. -/
def RamfsState.size (s : RamfsState) (f : Fin 32) : ℕ := ((s.files f).map RamfsFile.size).getD 0

/-- `ramfs_op_read`: the number of bytes read. -/
def ramfsOpRead (s : RamfsState) (id : UInt32) (cap : ℕ) : RamfsState × ℤ :=
  if cap = 0 then (s, 0)
  else
    match idToOpen s.opens id with
    | none => (s, Err.einval.code)
    | some (i, op) =>
      if op.val.flags &&& nxFsOpenRead = 0 then (s, Err.eperm.code)
      else
        let n := min (s.size op.val.file - op.val.cursor) cap
        ({ s with opens := putOpen s.opens i op { op.val with cursor := op.val.cursor + n } }, n)

/-- `ramfs_op_write`: the number of bytes written. With `NX_FS_OPEN_APPEND` the cursor moves even if
the file is full. -/
def ramfsOpWrite (s : RamfsState) (id : UInt32) (len : ℕ) : RamfsState × ℤ :=
  if len = 0 then (s, 0)
  else
    match idToOpen s.opens id with
    | none => (s, Err.einval.code)
    | some (i, op) =>
      if op.val.flags &&& nxFsOpenWrite = 0 then (s, Err.eperm.code)
      else
        let cursor := if op.val.flags &&& nxFsOpenAppend = 0 then op.val.cursor else s.size op.val.file
        let room := ramfsFileCap - cursor
        if room = 0 then ({ s with opens := putOpen s.opens i op { op.val with cursor } },
          Err.enomem.code)
        else
          let n := min len room
          let grown := (s.files op.val.file).map fun f => { f with size := max f.size (cursor + n) }
          ({ files := update s.files op.val.file grown
             opens := putOpen s.opens i op { op.val with cursor := cursor + n } }, n)

/-- `ramfs_op_seek`: the new position. -/
def ramfsOpSeek (s : RamfsState) (id : UInt32) (offset whence : ℤ) : RamfsState × ℤ :=
  match idToOpen s.opens id with
  | none => (s, Err.einval.code)
  | some (i, op) =>
    match seekTo op.val.cursor (s.size op.val.file) offset whence with
    | none => (s, Err.einval.code)
    | some pos => ({ s with opens := putOpen s.opens i op { op.val with cursor := pos } }, pos)

/-- `procfs_op_read`. -/
def procfsOpRead (s : ProcfsState) (id : UInt32) (cap : ℕ) : ProcfsState × ℤ :=
  if cap = 0 then (s, 0)
  else
    match idToOpen s.opens id with
    | none => (s, Err.einval.code)
    | some (i, op) =>
      let n := min (op.val.buf.length - op.val.cursor) cap
      ({ opens := putOpen s.opens i op { op.val with cursor := op.val.cursor + n } }, n)

/-- `procfs_op_write`: the filesystem is read-only. -/
def procfsOpWrite (s : ProcfsState) (_id : UInt32) (_len : ℕ) : ProcfsState × ℤ := (s, Err.eperm.code)

/-- `procfs_op_seek`. -/
def procfsOpSeek (s : ProcfsState) (id : UInt32) (offset whence : ℤ) : ProcfsState × ℤ :=
  match idToOpen s.opens id with
  | none => (s, Err.einval.code)
  | some (i, op) =>
    match seekTo op.val.cursor op.val.buf.length offset whence with
    | none => (s, Err.einval.code)
    | some pos => ({ opens := putOpen s.opens i op { op.val with cursor := pos } }, pos)

/-! ### Components -/

/-- A filesystem component, with its state. -/
inductive FsComp where
  | ramfs (s : RamfsState)
  | procfs (s : ProcfsState)

/-- A read of so many bytes, a write of so many, or a seek. -/
inductive FsIo where
  | read (cap : ℕ)
  | write (len : ℕ)
  | seek (offset whence : ℤ)
  deriving DecidableEq, Repr

namespace FsComp

/-- The reference count of an open, if there is one with this id. -/
def refsOf : FsComp → UInt32 → Option ℕ
  | .ramfs s => s.opens.refsOf
  | .procfs s => s.opens.refsOf

/-- `nx_fs_open`, on the component that a slot resolves to. -/
def nxFsOpen (ps : Procs) (path : Path) (flags : UInt32) : FsComp → FsComp × UInt32
  | .ramfs s => let r := ramfsOpOpen s path flags; (.ramfs r.1, r.2)
  | .procfs s => let r := procfsOpOpen s ps path flags; (.procfs r.1, r.2)

/-- `nx_fs_close`. -/
def nxFsClose (id : UInt32) : FsComp → FsComp
  | .ramfs s => .ramfs (ramfsOpClose s id)
  | .procfs s => .procfs (procfsOpClose s id)

/-- `nx_fs_retain`. -/
def nxFsRetain (id : UInt32) : FsComp → FsComp
  | .ramfs s => .ramfs (ramfsOpRetain s id)
  | .procfs s => .procfs (procfsOpRetain s id)

/-- `nx_fs_read`, `nx_fs_write` and `nx_fs_seek`. -/
def nxFsIo (id : UInt32) : FsIo → FsComp → FsComp × ℤ
  | .read cap, .ramfs s => let r := ramfsOpRead s id cap; (.ramfs r.1, r.2)
  | .read cap, .procfs s => let r := procfsOpRead s id cap; (.procfs r.1, r.2)
  | .write len, .ramfs s => let r := ramfsOpWrite s id len; (.ramfs r.1, r.2)
  | .write len, .procfs s => let r := procfsOpWrite s id len; (.procfs r.1, r.2)
  | .seek offset whence, .ramfs s => let r := ramfsOpSeek s id offset whence; (.ramfs r.1, r.2)
  | .seek offset whence, .procfs s => let r := procfsOpSeek s id offset whence; (.procfs r.1, r.2)

/-- An open fails and changes no count, or gives a free id its first reference. -/
theorem refsOf_nxFsOpen (f : FsComp) (ps : Procs) (path : Path) (flags : UInt32) :
    ((f.nxFsOpen ps path flags).2 = 0 ∧ (f.nxFsOpen ps path flags).1.refsOf = f.refsOf) ∨
      (f.nxFsOpen ps path flags).2 ≠ 0 ∧ f.refsOf (f.nxFsOpen ps path flags).2 = none ∧
        ∀ id, (f.nxFsOpen ps path flags).1.refsOf id =
          if id = (f.nxFsOpen ps path flags).2 then some 1 else f.refsOf id := by
  cases f with
  | ramfs s => exact (ramfsOpOpen_cases s path flags).refsOf (by decide)
  | procfs s => exact (procfsOpOpen_cases s ps path flags).refsOf (by decide)

theorem refsOf_nxFsClose (f : FsComp) (id id' : UInt32) :
    (f.nxFsClose id).refsOf id' =
      if id' = id then (f.refsOf id).bind (fun k => if 1 < k then some (k - 1) else none)
      else f.refsOf id' := by
  cases f <;> simp [nxFsClose, refsOf, ramfsOpClose, procfsOpClose, RefPool.refsOf_closeId]

theorem refsOf_nxFsRetain (f : FsComp) (id id' : UInt32) :
    (f.nxFsRetain id).refsOf id' = if id' = id then (f.refsOf id).map (· + 1) else f.refsOf id' := by
  cases f <;> simp [nxFsRetain, refsOf, ramfsOpRetain, procfsOpRetain, RefPool.refsOf_retainId]

/-- Reads, writes and seeks change no count. -/
theorem refsOf_nxFsIo (f : FsComp) (id : UInt32) (op : FsIo) : (f.nxFsIo id op).1.refsOf = f.refsOf := by
  cases f with
  | ramfs s =>
    cases op with
    | read cap =>
      simp only [nxFsIo, ramfsOpRead]
      split
      · rfl
      split
      · rfl
      · rename_i i o ho
        split
        · rfl
        · exact refsOf_putOpen ho _
    | write len =>
      simp only [nxFsIo, ramfsOpWrite]
      split
      · rfl
      split
      · rfl
      · rename_i i o ho
        split
        · rfl
        generalize (if o.val.flags &&& nxFsOpenAppend = 0 then o.val.cursor else s.size
          o.val.file) = cursor
        split
        · exact refsOf_putOpen ho _
        · exact refsOf_putOpen ho _
    | seek offset whence =>
      simp only [nxFsIo, ramfsOpSeek]
      split
      · rfl
      · rename_i i o ho
        split
        · rfl
        · exact refsOf_putOpen ho _
  | procfs s =>
    cases op with
    | read cap =>
      simp only [nxFsIo, procfsOpRead]
      split
      · rfl
      split
      · rfl
      · rename_i i o ho
        exact refsOf_putOpen ho _
    | write len => rfl
    | seek offset whence =>
      simp only [nxFsIo, procfsOpSeek]
      split
      · rfl
      · rename_i i o ho
        split
        · rfl
        · exact refsOf_putOpen ho _

end FsComp

/-! ### The vfs over components -/

/-- The vfs, the filesystem components there are, and the one that is bound to each mount. -/
structure Mounts (κ : Type) where
  wrappers : RefPool 108 VfsOpen := RefPool.empty
  comp : κ → FsComp
  bound : Mount → Option κ

namespace Mounts

variable {κ : Type} [DecidableEq κ]

def setComp (s : Mounts κ) (c : κ) (f : FsComp) : Mounts κ := { s with comp := update s.comp c f }

def setWrappers (s : Mounts κ) (wrappers : RefPool 108 VfsOpen) : Mounts κ := { s with wrappers }

/-- `vfs_simple_id_to_wrap`. -/
def idToWrap (s : Mounts κ) (id : UInt32) : Option (RefSlot VfsOpen) := (idToIdx 108 id).bind s.wrappers

/-- `vfs_simple_open`. A mount with no component refuses. -/
def vfsSimpleOpen (s : Mounts κ) (ps : Procs) (path : Path) (flags : UInt32) : Mounts κ × UInt32 :=
  if path.head? ≠ some slash then (s, 0)
  else
    match s.wrappers.firstFree with
    | none => (s, 0)
    | some i =>
      match s.bound (mountForPath path) with
      | none => (s, 0)
      | some c =>
        let r := (s.comp c).nxFsOpen ps path flags
        if r.2 = 0 then (s.setComp c r.1, 0)
        else
          ((s.setComp c r.1).setWrappers
              (update s.wrappers i (some ⟨1, { mount := mountForPath path, driverId := r.2 }⟩)),
            idxToId i)

/-- `vfs_simple_close`. -/
def vfsSimpleClose (s : Mounts κ) (id : UInt32) : Mounts κ :=
  match s.idToWrap id with
  | none => s
  | some w =>
    match s.bound w.val.mount with
    | none => s.setWrappers (s.wrappers.closeId id)
    | some c => (s.setComp c ((s.comp c).nxFsClose w.val.driverId)).setWrappers (s.wrappers.closeId id)

/-- `vfs_simple_retain`. -/
def vfsSimpleRetain (s : Mounts κ) (id : UInt32) : Mounts κ :=
  match s.idToWrap id with
  | none => s
  | some w =>
    match s.bound w.val.mount with
    | none => s
    | some c => (s.setComp c ((s.comp c).nxFsRetain w.val.driverId)).setWrappers (s.wrappers.retainId id)

/-- What `vfs_simple_read`, `vfs_simple_write` and `vfs_simple_seek` share. -/
def vfsSimpleIo (s : Mounts κ) (id : UInt32) (op : FsIo) : Mounts κ × ℤ :=
  match s.idToWrap id with
  | none => (s, Err.einval.code)
  | some w =>
    match s.bound w.val.mount with
    | none => (s, Err.einval.code)
    | some c =>
      let r := (s.comp c).nxFsIo w.val.driverId op
      (s.setComp c r.1, r.2)

def vfsSimpleRead (s : Mounts κ) (id : UInt32) (cap : ℕ) : Mounts κ × ℤ := s.vfsSimpleIo id (.read cap)

def vfsSimpleWrite (s : Mounts κ) (id : UInt32) (len : ℕ) : Mounts κ × ℤ := s.vfsSimpleIo id (.write len)

def vfsSimpleSeek (s : Mounts κ) (id : UInt32) (offset whence : ℤ) : Mounts κ × ℤ :=
  s.vfsSimpleIo id (.seek offset whence)

/-- A successful `nx_config_swap_component` on a mount: another component is bound. No open is
told. -/
def nxConfigSwapComponent (s : Mounts κ) (m : Mount) (c : κ) : Mounts κ :=
  { s with bound := update s.bound m (some c) }

/-! ### With the components fixed -/

/-- The vfs with its two filesystems, which stay. -/
def ofVfs (v : Vfs) : Mounts Mount where
  wrappers := v.wrappers
  comp
    | .root => .ramfs v.ramfs
    | .proc => .procfs v.procfs
  bound := some

variable (v : Vfs)

theorem setComp_root (r : RamfsState) :
    (ofVfs v).setComp .root (.ramfs r) = ofVfs { v with ramfs := r } := by
  unfold setComp ofVfs
  congr
  funext m
  cases m <;> rfl

theorem setComp_proc (r : ProcfsState) :
    (ofVfs v).setComp .proc (.procfs r) = ofVfs { v with procfs := r } := by
  unfold setComp ofVfs
  congr
  funext m
  cases m <;> rfl

theorem setComp_nxFsClose (m : Mount) (id : UInt32) :
    (ofVfs v).setComp m (((ofVfs v).comp m).nxFsClose id) = ofVfs (nxFsClose v m id) := by
  cases m with
  | root => exact setComp_root v _
  | proc => exact setComp_proc v _

theorem setComp_nxFsRetain (m : Mount) (id : UInt32) :
    (ofVfs v).setComp m (((ofVfs v).comp m).nxFsRetain id) = ofVfs (nxFsRetain v m id) := by
  cases m with
  | root => exact setComp_root v _
  | proc => exact setComp_proc v _

theorem setComp_nxFsOpen (m : Mount) (ps : Procs) (path : Path) (flags : UInt32) :
    (ofVfs v).setComp m (((ofVfs v).comp m).nxFsOpen ps path flags).1 = ofVfs
    (nxFsOpen v ps m path flags).1 ∧
      (((ofVfs v).comp m).nxFsOpen ps path flags).2 = (nxFsOpen v ps m path flags).2 := by
  cases m with
  | root => exact ⟨setComp_root v _, rfl⟩
  | proc => exact ⟨setComp_proc v _, rfl⟩

/-- With the components fixed, an open is that of the vfs over its two filesystems. -/
theorem vfsSimpleOpen_ofVfs (ps : Procs) (path : Path) (flags : UInt32) :
    (ofVfs v).vfsSimpleOpen ps path flags =
      (ofVfs (Components.vfsSimpleOpen v ps path flags).1,
        (Components.vfsSimpleOpen v ps path flags).2) := by
  unfold vfsSimpleOpen Components.vfsSimpleOpen
  by_cases hslash : path.head? ≠ some slash
  · simp [hslash]
  obtain ⟨hcomp, hid⟩ := setComp_nxFsOpen v (mountForPath path) ps path flags
  rw [if_neg hslash, if_neg hslash]
  change (match v.wrappers.firstFree with | none => _ | some i => _) = _
  cases v.wrappers.firstFree with
  | none => rfl
  | some i =>
    change (if (((ofVfs v).comp (mountForPath path)).nxFsOpen ps path flags).2 = 0 then _ else _) = _
    dsimp only
    rw [hcomp, hid, wrappers_nxFsOpen]
    split_ifs
    · rfl
    · rfl

theorem vfsSimpleClose_ofVfs (id : UInt32) :
    (ofVfs v).vfsSimpleClose id = ofVfs (Components.vfsSimpleClose v id) := by
  unfold vfsSimpleClose Components.vfsSimpleClose
  change (match vfsSimpleIdToWrap v id with | none => _ | some w => _) = _
  cases vfsSimpleIdToWrap v id with
  | none => rfl
  | some w =>
    change ((ofVfs v).setComp w.val.mount
      (((ofVfs v).comp w.val.mount).nxFsClose w.val.driverId)).setWrappers _ = _
    rw [setComp_nxFsClose]
    dsimp only
    rw [wrappers_nxFsClose]
    rfl

theorem vfsSimpleRetain_ofVfs (id : UInt32) :
    (ofVfs v).vfsSimpleRetain id = ofVfs (Components.vfsSimpleRetain v id) := by
  unfold vfsSimpleRetain Components.vfsSimpleRetain
  change (match vfsSimpleIdToWrap v id with | none => _ | some w => _) = _
  cases vfsSimpleIdToWrap v id with
  | none => rfl
  | some w =>
    change ((ofVfs v).setComp w.val.mount
      (((ofVfs v).comp w.val.mount).nxFsRetain w.val.driverId)).setWrappers _ = _
    rw [setComp_nxFsRetain]
    dsimp only
    rw [wrappers_nxFsRetain]
    rfl

end Mounts

/-! ### Runs -/

/-- What happens to the vfs. -/
inductive SwapStep (κ : Type) where
  /-- An open. The processes there are matter to `procfs`. -/
  | open (ps : Procs) (path : Path) (flags : UInt32)
  | retain (id : UInt32)
  | close (id : UInt32)
  | read (id : UInt32) (cap : ℕ)
  | write (id : UInt32) (len : ℕ)
  | seek (id : UInt32) (offset whence : ℤ)
  | swap (m : Mount) (c : κ)

/-- A run: the opens of the vfs are numbered. An id stands for the open that returned it last. -/
structure SwapRun (κ : Type) where
  fs : Mounts κ
  opens : ℕ := 0
  /-- The open that a wrapper stands for. -/
  openOf : Fin 108 → ℕ := fun _ => 0
  /-- The open that a component made the open with this id for. -/
  madeFor : κ → UInt32 → ℕ := fun _ _ => 0
  /-- Of each operation that found an open of a component: the open it was made on, and the one that
  was made for. -/
  touched : List (ℕ × ℕ) := []

namespace SwapRun

variable {κ : Type} [DecidableEq κ]

/-- Note the open of a component that an operation on an id finds. -/
def touch (s : SwapRun κ) (id : UInt32) : SwapRun κ :=
  match idToIdx 108 id with
  | none => s
  | some i =>
    match s.fs.wrappers i with
    | none => s
    | some w =>
      match s.fs.bound w.val.mount with
      | none => s
      | some c =>
        if ((s.fs.comp c).refsOf w.val.driverId).isSome then
          { s with touched := s.touched ++ [(s.openOf i, s.madeFor c w.val.driverId)] }
        else s

/-- Number an open that has returned this id. -/
def number (s : SwapRun κ) (id : UInt32) : SwapRun κ :=
  match idToIdx 108 id with
  | none => s
  | some i =>
    match s.fs.wrappers i with
    | none => s
    | some w =>
      match s.fs.bound w.val.mount with
      | none => s
      | some c =>
        { s with
          opens := s.opens + 1
          openOf := update s.openOf i s.opens
          madeFor := update s.madeFor c (update (s.madeFor c) w.val.driverId s.opens) }

def step (s : SwapRun κ) : SwapStep κ → SwapRun κ
  | .open ps path flags =>
    let r := s.fs.vfsSimpleOpen ps path flags
    { s with fs := r.1 }.number r.2
  | .retain id => { s.touch id with fs := s.fs.vfsSimpleRetain id }
  | .close id => { s.touch id with fs := s.fs.vfsSimpleClose id }
  | .read id cap => { s.touch id with fs := (s.fs.vfsSimpleRead id cap).1 }
  | .write id len => { s.touch id with fs := (s.fs.vfsSimpleWrite id len).1 }
  | .seek id offset whence => { s.touch id with fs := (s.fs.vfsSimpleSeek id offset whence).1 }
  | .swap m c => { s with fs := s.fs.nxConfigSwapComponent m c }

/-- A mount whose component is replaced has no open. -/
def Permitted (s : SwapRun κ) : SwapStep κ → Prop
  | .swap m _ => ∀ i, (s.fs.wrappers i).map (·.val.mount) ≠ some m
  | _ => True

instance (s : SwapRun κ) : DecidablePred s.Permitted
  | .swap m _ => inferInstanceAs (Decidable (∀ i, (s.fs.wrappers i).map (·.val.mount) ≠ some m))
  | .open .. | .retain _ | .close _ | .read .. | .write .. | .seek .. => inferInstanceAs (Decidable True)

/-- What every permitted step keeps: a wrapper has an open of its own of the component that its
mount is bound to, made for it and with the same count. -/
structure Good (s : SwapRun κ) : Prop where
  own : ∀ i w, s.fs.wrappers i = some w → ∃ c, s.fs.bound w.val.mount = some c ∧
    (s.fs.comp c).refsOf w.val.driverId = some w.refs ∧ s.madeFor c w.val.driverId = s.openOf i
  apart : ∀ i j w w', s.fs.wrappers i = some w → s.fs.wrappers j = some w' →
    s.fs.bound w.val.mount = s.fs.bound w'.val.mount → w.val.driverId = w'.val.driverId → i = j
  touched : ∀ t ∈ s.touched, t.1 = t.2

variable {s : SwapRun κ}

omit [DecidableEq κ] in
theorem good_start (comp : κ → FsComp) (bound : Mount → Option κ) : Good { fs := { comp, bound } } where
  own _ _ h := nomatch h
  apart _ _ _ _ h := nomatch h
  touched _ h := nomatch h

omit [DecidableEq κ] in
theorem Good.touch (h : Good s) (id : UInt32) : Good (s.touch id) := by
  unfold SwapRun.touch
  cases idToIdx 108 id with
  | none => exact h
  | some i =>
    dsimp only
    split
    · exact h
    · rename_i w hw
      split
      · exact h
      · rename_i c hc
        split
        · refine ⟨h.own, h.apart, fun t ht => ?_⟩
          obtain ⟨c', hc', -, hmade⟩ := h.own i w hw
          obtain rfl : c' = c := some_inj.mp (hc'.symm.trans hc)
          rcases List.mem_append.mp ht with ht | ht
          · exact h.touched t ht
          · rw [List.mem_singleton.mp ht]
            exact hmade.symm
        · exact h

/-- The count of a wrapper and that of its open move together. No other wrapper has this open. -/
theorem Good.move (h : Good s) {i : Fin 108} {w : RefSlot VfsOpen} (hw : s.fs.wrappers i = some w)
    {c : κ} (hc : s.fs.bound w.val.mount = some c) {f : FsComp} (count : Option ℕ)
    (hf : ∀ d, f.refsOf d = if d = w.val.driverId then count else (s.fs.comp c).refsOf d) :
    Good { s with fs := (s.fs.setComp c f).setWrappers (update s.fs.wrappers i
      (count.map fun k => ⟨k, w.val⟩)) } := by
  have hval : ∀ j w', update s.fs.wrappers i (count.map fun k => ⟨k, w.val⟩) j = some w' →
      ∃ w₀, s.fs.wrappers j = some w₀ ∧ w'.val = w₀.val := by
    intro j w' hw'
    by_cases hji : j = i
    · subst hji
      rw [update_self] at hw'
      obtain ⟨k, -, rfl⟩ := map_eq_some_iff.mp hw'
      exact ⟨w, hw, rfl⟩
    · rw [update_of_ne hji] at hw'
      exact ⟨w', hw', rfl⟩
  refine ⟨fun j w' hw' => ?_, fun j k w₁ w₂ h₁ h₂ hbound hid => ?_, h.touched⟩
  · change update s.fs.wrappers i (count.map fun k => ⟨k, w.val⟩) j = some w' at hw'
    change ∃ c', s.fs.bound w'.val.mount = some c' ∧
      ((update s.fs.comp c f) c').refsOf w'.val.driverId = some w'.refs ∧ _
    by_cases hji : j = i
    · subst hji
      obtain ⟨c', hc', -, hmade⟩ := h.own j w hw
      obtain rfl : c' = c := some_inj.mp (hc'.symm.trans hc)
      rw [update_self] at hw'
      obtain ⟨k, hk, rfl⟩ := map_eq_some_iff.mp hw'
      exact ⟨c', hc, by rw [update_self, hf, if_pos rfl, hk], hmade⟩
    · rw [update_of_ne hji] at hw'
      obtain ⟨c', hc', hrefs, hmade⟩ := h.own j w' hw'
      refine ⟨c', hc', ?_, hmade⟩
      by_cases hcc : c' = c
      · subst hcc
        have hne : w'.val.driverId ≠ w.val.driverId := fun heq =>
          hji (h.apart j i w' w hw' hw (hc'.trans hc.symm) heq)
        rw [update_self, hf, if_neg hne, hrefs]
      · rw [update_of_ne hcc, hrefs]
  · obtain ⟨w₁', h₁', hv₁⟩ := hval j w₁ h₁
    obtain ⟨w₂', h₂', hv₂⟩ := hval k w₂ h₂
    exact h.apart j k w₁' w₂' h₁' h₂' (hv₁ ▸ hv₂ ▸ hbound) (hv₁ ▸ hv₂ ▸ hid)

omit [DecidableEq κ] in
/-- The wrapper that an id names. -/
theorem idToWrap_some {m : Mounts κ} {id : UInt32} {w : RefSlot VfsOpen} (h : m.idToWrap id = some w) :
    ∃ i, id = idxToId i ∧ m.wrappers i = some w := by
  obtain ⟨i, hi, hw⟩ := bind_eq_some_iff.mp h
  exact ⟨i, (idToIdx_eq_some_iff (by decide)).mp hi, hw⟩

theorem Good.retain (h : Good s) (id : UInt32) : Good { s with fs := s.fs.vfsSimpleRetain id } := by
  unfold Mounts.vfsSimpleRetain
  split
  · exact h
  · rename_i w hwrap
    obtain ⟨i, rfl, hw⟩ := idToWrap_some hwrap
    obtain ⟨c, hc, hrefs, -⟩ := h.own i w hw
    simp only [hc]
    rw [RefPool.retainId_idxToId (by decide) hw]
    refine h.move hw hc (some (w.refs + 1)) fun d => ?_
    rw [FsComp.refsOf_nxFsRetain, hrefs, map_some]

theorem Good.close (h : Good s) (id : UInt32) : Good { s with fs := s.fs.vfsSimpleClose id } := by
  unfold Mounts.vfsSimpleClose
  split
  · exact h
  · rename_i w hwrap
    obtain ⟨i, rfl, hw⟩ := idToWrap_some hwrap
    obtain ⟨c, hc, hrefs, -⟩ := h.own i w hw
    simp only [hc]
    rw [RefPool.closeId_idxToId (by decide) hw]
    have hmoved := h.move hw hc (f := (s.fs.comp c).nxFsClose w.val.driverId)
      (if 1 < w.refs then some (w.refs - 1) else none) fun d => by
        rw [FsComp.refsOf_nxFsClose, hrefs, bind_some]
    by_cases hlast : 1 < w.refs
    · simpa only [hlast, ↓reduceIte, map_some] using hmoved
    · simpa only [hlast, ↓reduceIte, map_none] using hmoved

/-- A component may change all but its counts. -/
theorem Good.setComp (h : Good s) {c : κ} {f : FsComp} (hf : f.refsOf = (s.fs.comp c).refsOf) :
    Good { s with fs := s.fs.setComp c f } := by
  refine ⟨fun i w hw => ?_, h.apart, h.touched⟩
  obtain ⟨c', hc', hrefs, hmade⟩ := h.own i w hw
  refine ⟨c', hc', ?_, hmade⟩
  change ((update s.fs.comp c f) c').refsOf _ = _
  by_cases hcc : c' = c
  · rw [hcc, update_self, hf, ← hcc, hrefs]
  · rw [update_of_ne hcc, hrefs]

theorem Good.io (h : Good s) (id : UInt32) (op : FsIo) :
    Good { s with fs := (s.fs.vfsSimpleIo id op).1 } := by
  unfold Mounts.vfsSimpleIo
  split
  · exact h
  split
  · exact h
  · exact h.setComp (FsComp.refsOf_nxFsIo _ _ op)

theorem Good.open (h : Good s) (ps : Procs) (path : Path) (flags : UInt32) :
    Good (s.step (.open ps path flags)) := by
  simp only [step, Mounts.vfsSimpleOpen]
  have hzero : idToIdx 108 0 = none := by decide
  by_cases hslash : path.head? ≠ some slash
  · rw [if_pos hslash]
    simpa only [number, hzero] using h
  rw [if_neg hslash]
  cases hfree : s.fs.wrappers.firstFree with
  | none => simpa only [number, hzero] using h
  | some i =>
    cases hc : s.fs.bound (mountForPath path) with
    | none => simpa only [number, hzero] using h
    | some c =>
      dsimp only
      rcases FsComp.refsOf_nxFsOpen (s.fs.comp c) ps path flags with ⟨hid, hrefs⟩ | ⟨hid, hnone, hrefs⟩
      · rw [if_pos hid]
        simpa only [number, hzero] using h.setComp hrefs
      rw [if_neg hid]
      have hi : s.fs.wrappers i = none := by simpa using List.find?_some hfree
      generalize hr : (s.fs.comp c).nxFsOpen ps path flags = r at hid hnone hrefs ⊢
      have hidx : idToIdx 108 (idxToId i) = some i := (idToIdx_eq_some_iff (by decide)).mpr rfl
      simp only [number, hidx, Mounts.setWrappers, Mounts.setComp, update_self, hc]
      -- The component had no open with the new id, so no wrapper leads there.
      have hother : ∀ j w, s.fs.wrappers j = some w → s.fs.bound w.val.mount = some c →
          w.val.driverId ≠ r.2 := by
        intro j w hw hb heq
        obtain ⟨c', hc', hown, -⟩ := h.own j w hw
        obtain rfl : c' = c := some_inj.mp (hc'.symm.trans hb)
        rw [heq, hnone] at hown
        cases hown
      refine ⟨fun j w hw => ?_, fun j k w₁ w₂ h₁ h₂ hbound hdriver => ?_, h.touched⟩
      · by_cases hji : j = i
        · subst hji
          obtain rfl : (⟨1, ⟨mountForPath path, r.2⟩⟩ : RefSlot VfsOpen) = w := by simpa using hw
          exact ⟨c, hc, by simp [hrefs], by simp⟩
        · have hw' : s.fs.wrappers j = some w := by simpa [hji] using hw
          obtain ⟨c', hc', hown, hmade⟩ := h.own j w hw'
          refine ⟨c', hc', ?_, ?_⟩
          · by_cases hcc : c' = c
            · subst hcc
              simp [hrefs, hother j w hw' hc', hown]
            · simp [hcc, hown]
          · by_cases hcc : c' = c
            · subst hcc
              simp [hji, hother j w hw' hc', hmade]
            · simp [hji, hcc, hmade]
      · by_cases hji : j = i <;> by_cases hki : k = i
        · rw [hji, hki]
        · subst hji
          obtain rfl : (⟨1, ⟨mountForPath path, r.2⟩⟩ : RefSlot VfsOpen) = w₁ := by simpa using h₁
          have h₂' : s.fs.wrappers k = some w₂ := by simpa [hki] using h₂
          exact absurd hdriver.symm (hother k w₂ h₂' (hbound ▸ hc))
        · subst hki
          obtain rfl : (⟨1, ⟨mountForPath path, r.2⟩⟩ : RefSlot VfsOpen) = w₂ := by simpa using h₂
          have h₁' : s.fs.wrappers j = some w₁ := by simpa [hji] using h₁
          exact absurd hdriver (hother j w₁ h₁' (hbound.trans hc))
        · exact h.apart j k w₁ w₂ (by simpa [hji] using h₁) (by simpa [hki] using h₂) hbound hdriver

omit [DecidableEq κ] in
theorem Good.swap (h : Good s) {m : Mount}
    (hnone : ∀ i, (s.fs.wrappers i).map (·.val.mount) ≠ some m) (c : κ) :
    Good { s with fs := s.fs.nxConfigSwapComponent m c } := by
  have hbound : ∀ i w, s.fs.wrappers i = some w →
      (s.fs.nxConfigSwapComponent m c).bound w.val.mount = s.fs.bound w.val.mount := by
    intro i w hw
    refine update_of_ne (fun heq => hnone i ?_) _ _
    rw [hw, map_some, heq]
  refine ⟨fun i w hw => ?_, fun i j w w' hw hw' hb => ?_, h.touched⟩
  · obtain ⟨c', hc', hown⟩ := h.own i w hw
    exact ⟨c', (hbound i w hw).trans hc', hown⟩
  · exact h.apart i j w w' hw hw' (by rw [← hbound i w hw, ← hbound j w' hw']; exact hb)

theorem Good.step (h : Good s) {a : SwapStep κ} (hok : s.Permitted a) : Good (s.step a) := by
  have hfs : ∀ id, (s.touch id).fs = s.fs := by
    intro id
    unfold SwapRun.touch
    repeat' split
    all_goals rfl
  cases a with
  | «open» ps path flags => exact h.open ps path flags
  | retain id => simpa only [SwapRun.step, hfs] using (h.touch id).retain id
  | close id => simpa only [SwapRun.step, hfs] using (h.touch id).close id
  | read id cap => simpa only [SwapRun.step, hfs, Mounts.vfsSimpleRead]
      using (h.touch id).io id (.read cap)
  | write id len => simpa only [SwapRun.step, hfs, Mounts.vfsSimpleWrite]
      using (h.touch id).io id (.write len)
  | seek id offset whence =>
    simpa only [SwapRun.step, hfs, Mounts.vfsSimpleSeek] using (h.touch id).io id (.seek offset whence)
  | swap m c => exact h.swap hok c

/-- **In any run in which a mount has no open when its component is replaced**, an operation on an
open of the vfs finds no open of a filesystem that was made for another. -/
theorem swap_keeps_opens_apart (comp : κ → FsComp) (bound : Mount → Option κ) (as : List (SwapStep κ))
    (hok : RunOk SwapRun.step Permitted { fs := { comp, bound } } as) :
    ∀ t ∈ (runFrom SwapRun.step { fs := { comp, bound } } as).touched, t.1 = t.2 :=
  (hok.inv Good (fun _ _ hok h => h.step hok) (good_start comp bound)).touched

/-- Two `ramfs` components, of which the first is the root filesystem. -/
def twoRamfs : SwapRun (Fin 2) where
  fs :=
    { comp := fun _ => .ramfs {}
      bound := fun m => if m = .root then some 0 else none }

/-- An open of `/a`, which is closed before the swap, and an open of `/b` after it. -/
theorem swap_keeps_opens_apart_closed :
    (runFrom SwapRun.step twoRamfs
      [.open bootProcs [47, 97] 7, .read 1 4, .close 1, .swap .root 1, .open bootProcs [47, 98] 7,
        .read 1 4]).touched = [(0, 0), (0, 0), (1, 1)] ∧
      ∀ t ∈ (runFrom SwapRun.step twoRamfs
        [.open bootProcs [47, 97] 7, .read 1 4, .close 1, .swap .root 1, .open bootProcs [47, 98] 7,
          .read 1 4]).touched, t.1 = t.2 :=
  ⟨by decide +kernel, swap_keeps_opens_apart twoRamfs.fs.comp twoRamfs.fs.bound
    [.open bootProcs [47, 97] 7, .read 1 4, .close 1, .swap .root 1, .open bootProcs [47, 98] 7,
      .read 1 4]
    (by decide +kernel)⟩

/-- **An open that outlives its filesystem.** `/a` is open, with the id 1 of both the vfs and the
first component. After the swap `/b` is opened, and gets the id 1 of the second component. A write
to the first open goes to `/b`, and its close closes the second. -/
theorem swap_confuses_opens :
    (runFrom SwapRun.step twoRamfs
      [.open bootProcs [47, 97] 7, .swap .root 1, .open bootProcs [47, 98] 7, .write 1 4,
        .close 1]).touched = [(0, 1), (0, 1)] ∧
      ((runFrom SwapRun.step twoRamfs
        [.open bootProcs [47, 97] 7, .swap .root 1, .open bootProcs [47, 98] 7, .write 1 4,
          .close 1]).fs.vfsSimpleRead 2 4).2 = Err.einval.code := by
  decide +kernel

end SwapRun

end Nonux.Components
