import Nonux.Lib.RefPool
import Nonux.Syscall.Path

/-!
# The in-memory filesystem (`components/ramfs/ramfs.c`)

A fixed table of files, stored under their whole paths, and a fixed pool of opens.
A directory is an entry of its own, or a path that some stored name goes through.

This module has the operations that decide what an open, a directory listing and a
stat find, and the life of an open: `open`, `close`, `retain`, `readdir`, `stat`.
The bytes of a file are left out; its size is kept, for `stat`.

`RefPool` carries the reference counts; what `ramfs_op_open` does to the pool is
`ramfsOpOpen_cases`.
-/

namespace Nonux.Components

open Nonux.Framework Nonux.Lib Nonux.Syscall

/-! ### What the filesystems share (`interfaces/fs.h`, `interfaces/fs_types.h`) -/

/-- `NX_FS_KIND_*`. -/
inductive FsKind where
  | file
  | dir
  deriving DecidableEq, Repr

/-- `struct nx_fs_stat`. -/
structure FsStat where
  kind : FsKind
  size : ℕ
  deriving DecidableEq, Repr

/-- `NX_FS_OPEN_READ`, and the other open flags. -/
def nxFsOpenRead : UInt32 := 1
@[inherit_doc nxFsOpenRead] def nxFsOpenWrite : UInt32 := 2
@[inherit_doc nxFsOpenRead] def nxFsOpenCreate : UInt32 := 4
@[inherit_doc nxFsOpenRead] def nxFsOpenAppend : UInt32 := 8

/-- `NX_FS_DIRENT_NAME_MAX`. -/
def nxFsDirentNameMax : ℕ := 64

/-- What `readdir` returns when it finds an entry: the cookie to go on from, and the
entry's name. -/
abbrev Dirent := UInt32 × Path

/-! ### The state -/

/-- `RAMFS_NAME_MAX`. -/
def ramfsNameMax : ℕ := 32

/-- `struct ramfs_file`, of an entry in use. -/
structure RamfsFile where
  kind : FsKind
  name : Path
  size : ℕ := 0
  deriving DecidableEq, Repr

/-- `struct ramfs_open`, but for its reference count. -/
structure RamfsOpen where
  file : Fin 32
  flags : UInt32
  cursor : ℕ := 0
  deriving DecidableEq, Repr

/-- `struct ramfs_state`: `RAMFS_MAX_FILES` files and `RAMFS_MAX_OPEN` opens. -/
structure RamfsState where
  files : Fin 32 → Option RamfsFile := fun _ => none
  opens : RefPool 128 RamfsOpen := RefPool.empty

/-! ### The file table -/

/-- `ramfs_find`: `strncmp` over the first `RAMFS_NAME_MAX - 1` bytes. -/
def ramfsFind (s : RamfsState) (path : Path) : Option (Fin 32) :=
  (List.finRange 32).find? fun i =>
    match s.files i with
    | none => false
    | some f => decide (f.name.take (ramfsNameMax - 1) = path.take (ramfsNameMax - 1))

/-- `ramfs_create_entry`: the file table with the entry, and its index. -/
def ramfsCreateEntry (s : RamfsState) (path : Path) (kind : FsKind) : Option (RamfsState × Fin 32) :=
  if path.length = 0 ∨ ramfsNameMax ≤ path.length then none
  else
    ((List.finRange 32).find? fun i => (s.files i).isNone).map fun i =>
      ({ s with files := Function.update s.files i (some { kind, name := path }) }, i)

/-- `ramfs_create_file`. -/
def ramfsCreateFile (s : RamfsState) (path : Path) : Option (RamfsState × Fin 32) :=
  ramfsCreateEntry s path .file

/-! ### Opens -/

/-- The file an open is to use: the stored one, unless it is a directory, or a new one
when the flags ask for it. The state may have the new file even if the open fails
later. -/
def ramfsOpenFile (s : RamfsState) (path : Path) (flags : UInt32) : Option (RamfsState × Fin 32) :=
  match ramfsFind s path with
  | some i =>
    match s.files i with
    | some f => if f.kind = .dir then none else some (s, i)
    | none => none
  | none => if flags &&& nxFsOpenCreate = 0 then none else ramfsCreateFile s path

/-- `ramfs_op_open`. The id 0 is failure. -/
def ramfsOpOpen (s : RamfsState) (path : Path) (flags : UInt32) : RamfsState × UInt32 :=
  if path = [] then (s, 0)
  else if flags &&& ~~~(nxFsOpenRead ||| nxFsOpenWrite ||| nxFsOpenCreate ||| nxFsOpenAppend) ≠
    0 then (s, 0)
  else
    match ramfsOpenFile s path flags with
    | none => (s, 0)
    | some (s, file) =>
      match s.opens.alloc { file, flags } with
      | none => (s, 0)
      | some (opens, i) => ({ s with opens }, idxToId i)

/-- `ramfs_op_close`. -/
def ramfsOpClose (s : RamfsState) (id : UInt32) : RamfsState := { s with opens := s.opens.closeId id }

/-- `ramfs_op_retain`. -/
def ramfsOpRetain (s : RamfsState) (id : UInt32) : RamfsState := { s with opens := s.opens.retainId id }

/-! ### Directories -/

/-- `ramfs_match_child`: the name of the child of `dirPath` that a stored name is, or
goes through. -/
def ramfsMatchChild (name dirPath : Path) : Option Path :=
  let suffix : Option Path :=
    if dirPath.length = 1 then
      match name with
      | b :: rest => if b ≠ slash ∨ rest = [] then none else some rest
      | [] => none
    else if name.take dirPath.length ≠ dirPath then none
    else if name[dirPath.length]? ≠ some slash then none
    else some (name.drop (dirPath.length + 1))
  match suffix with
  | none => none
  | some suffix =>
    let seg := suffix.takeWhile (· ≠ slash)
    if seg = [] then none else some seg

/-- The child of `dirPath` that the file table's entry `i` stands for. -/
def ramfsChild (s : RamfsState) (dirPath : Path) (i : Fin 32) : Option Path :=
  (s.files i).bind fun f => ramfsMatchChild f.name dirPath

/-- `ramfs_op_readdir`: cookies 0 and 1 are `.` and `..`, and a later one is the place
in the file table to go on from, plus 2. A child is skipped when an earlier entry
already stood for it. -/
def ramfsOpReaddir (s : RamfsState) (dirPath : Path) (cookie : UInt32) : Except Err Dirent :=
  if dirPath.head? ≠ some slash then .error .einval
  else if cookie = 0 then .ok (1, [dot])
  else if cookie = 1 then .ok (2, [dot, dot])
  else
    let found := (List.finRange 32).findSome? fun (i : Fin 32) =>
      if (i : ℕ) < cookie.toNat - 2 then none
      else
        match ramfsChild s dirPath i with
        | none => none
        | some seg =>
          if (List.finRange 32).any
            (fun j => decide (j < i ∧ ramfsChild s dirPath j = some seg)) then none
          else some (UInt32.ofNat (i + 3), seg.take (nxFsDirentNameMax - 1))
    match found with
    | none => .error .enoent
    | some d => .ok d

/-- `ramfs_op_stat`. -/
def ramfsOpStat (s : RamfsState) (path : Path) : Except Err FsStat :=
  if path.head? ≠ some slash then .error .einval
  else if path = [slash] then .ok { kind := .dir, size := 0 }
  else
    match (ramfsFind s path).bind s.files with
    | some f => .ok { kind := f.kind, size := if f.kind = .dir then 0 else f.size }
    | none =>
      -- Some stored name has `path/` as a prefix: an implicit directory.
      let isParent := (List.finRange 32).any fun i =>
        match s.files i with
        | none => false
        | some f => decide (f.name.take path.length = path ∧ f.name[path.length]? = some slash)
      if isParent then .ok { kind := .dir, size := 0 } else .error .enoent

/-! ### What an open does to the pool -/

theorem ramfsCreateEntry_opens {s s' : RamfsState} {path : Path} {kind : FsKind} {i : Fin 32}
    (h : ramfsCreateEntry s path kind = some (s', i)) : s'.opens = s.opens := by
  unfold ramfsCreateEntry at h
  split_ifs at h
  simp only [Option.map_eq_some_iff] at h
  obtain ⟨j, -, heq⟩ := h
  cases heq
  rfl

theorem ramfsOpenFile_opens {s s' : RamfsState} {path : Path} {flags : UInt32} {i : Fin 32}
    (h : ramfsOpenFile s path flags = some (s', i)) : s'.opens = s.opens := by
  unfold ramfsOpenFile at h
  split at h
  · split at h
    · split_ifs at h
      cases h
      rfl
    · exact absurd h (by simp)
  · split_ifs at h
    exact ramfsCreateEntry_opens h

theorem ramfsOpOpen_cases (s : RamfsState) (path : Path) (flags : UInt32) :
    s.opens.Opened (ramfsOpOpen s path flags).1.opens (ramfsOpOpen s path flags).2 := by
  unfold ramfsOpOpen
  split_ifs
  · exact .inl ⟨rfl, rfl⟩
  · exact .inl ⟨rfl, rfl⟩
  · cases hfile : ramfsOpenFile s path flags with
    | none => exact .inl ⟨rfl, rfl⟩
    | some r =>
      obtain ⟨s', file⟩ := r
      have hopens := ramfsOpenFile_opens hfile
      cases halloc : s'.opens.alloc { file, flags } with
      | none =>
        simp only [halloc]
        exact .inl ⟨rfl, hopens⟩
      | some r =>
        obtain ⟨opens, i⟩ := r
        obtain ⟨hfree, rfl⟩ := RefPool.alloc_eq_some halloc
        simp only [halloc]
        exact .inr ⟨i, _, by rw [← hopens]; exact hfree, rfl, by rw [hopens]⟩

end Nonux.Components
