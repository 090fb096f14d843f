import Nonux.Components.Ramfs
import Nonux.Framework.Process

/-!
# The process filesystem (`components/procfs/procfs.c`)

`/proc`, `/proc/<pid>` and `/proc/<pid>/stat`, made up from the process table at each
call. Opening the `stat` file renders its one line into the open, from a fixed pool.
As for `ramfs`, this module has `open`, `close`, `retain`, `readdir` and `stat`.
-/

namespace Nonux.Components

open Nonux.Framework Nonux.Lib Nonux.Syscall

/-! ### Paths -/

/-- The bytes of `/proc`. -/
def procPath : Path := [47, 112, 114, 111, 99]

/-- The bytes of `stat`. -/
def statName : Path := [115, 116, 97, 116]

/-- `procfs_path_is_root`. -/
def procfsPathIsRoot (path : Path) : Bool := path = procPath ∨ path = procPath ++ [slash]

/-- The digit loop of `procfs_parse_pid`, with its check for overflow: the sum must not
have come out smaller. -/
def procfsParseDigits : UInt32 → Path → Option (UInt32 × Path)
  | pid, [] => some (pid, [])
  | pid, b :: rest =>
    if 48 ≤ b ∧ b ≤ 57 then
      let next := pid * 10 + (b - 48).toUInt32
      if next < pid then none else procfsParseDigits next rest
    else some (pid, b :: rest)

/-- `procfs_parse_pid`: the pid after `/proc/`, and what follows it. -/
def procfsParsePid (path : Path) : Option (UInt32 × Path) :=
  if path.take 6 ≠ procPath ++ [slash] then none
  else
    match path.drop 6 with
    | b :: rest => if 48 ≤ b ∧ b ≤ 57 then procfsParseDigits 0 (b :: rest) else none
    | [] => none

/-- Nothing follows the pid, or only a slash: the path of `/proc/<pid>`. -/
def procfsTailIsDir (tail : Path) : Bool := tail = [] ∨ tail = [slash]

/-! ### The `stat` line -/

/-- `PROCFS_STAT_BUFSZ`. -/
def procfsStatBufsz : ℕ := 384

/-- `procfs_emit_str`, and `procfs_emit_char` for one byte: what does not fit is cut. -/
def procfsEmitStr (cap : ℕ) (out s : Path) : Path := out ++ s.take (cap - out.length)

/-- The decimal digits `procfs_emit_u` writes. -/
def decimal (n : ℕ) : Path := (Nat.toDigits 10 n).map fun c => UInt8.ofNat c.toNat

/-- `procfs_render_stat`. -/
def procfsRenderStat (p : Process) (cap : ℕ) : Path :=
  let emit := procfsEmitStr cap
  let out := emit [] (decimal p.pid.toNat)
  let out := emit out [32, 40]
  let comm := p.name.take 15
  let out := emit out (if comm = [] then [63] else comm)
  let out := emit out [41, 32]
  let out := emit out [if p.state = .exited then 90 else 82]
  let out := emit out [32]
  let out := emit out (decimal p.parentPid.toNat)
  let out := (List.range 21).foldl (fun out _ => emit out [32, 48]) out
  emit out [10]

/-! ### Opens -/

/-- `struct procfs_open`, but for its reference count. -/
structure ProcfsOpen where
  buf : Path
  cursor : ℕ := 0
  deriving DecidableEq, Repr

/-- `struct procfs_state`: `PROCFS_MAX_OPEN` opens. -/
structure ProcfsState where
  opens : RefPool 8 ProcfsOpen := RefPool.empty

/-- `procfs_op_open`. The id 0 is failure. -/
def procfsOpOpen (s : ProcfsState) (ps : Procs) (path : Path) (flags : UInt32) : ProcfsState × UInt32 :=
  if path = [] then (s, 0)
  else if flags &&& (nxFsOpenWrite ||| nxFsOpenCreate ||| nxFsOpenAppend) ≠ 0 then (s, 0)
  else
    match procfsParsePid path with
    | none => (s, 0)
    | some (pid, tail) =>
      if tail ≠ slash :: statName then (s, 0)
      else
        match (nxProcessLookupByPid ps pid).bind ps.slot with
        | none => (s, 0)
        | some p =>
          match s.opens.alloc { buf := procfsRenderStat p procfsStatBufsz } with
          | none => (s, 0)
          | some (opens, i) => ({ opens }, idxToId i)

/-- `procfs_op_close`. -/
def procfsOpClose (s : ProcfsState) (id : UInt32) : ProcfsState := { opens := s.opens.closeId id }

/-- `procfs_op_retain`. -/
def procfsOpRetain (s : ProcfsState) (id : UInt32) : ProcfsState := { opens := s.opens.retainId id }

/-! ### Directories -/

/-- `procfs_op_readdir`. -/
def procfsOpReaddir (ps : Procs) (dirPath : Path) (cookie : UInt32) : Except Err Dirent :=
  if dirPath.head? ≠ some slash then .error .einval
  else if procfsPathIsRoot dirPath then
    match (nxProcessForEach ps)[cookie.toNat]? with
    | none => .error .enoent
    | some p => .ok (cookie + 1, decimal p.pid.toNat)
  else
    match procfsParsePid dirPath with
    | none => .error .enoent
    | some (pid, tail) =>
      if procfsTailIsDir tail = false then .error .enoent
      else if (nxProcessLookupByPid ps pid).isNone then .error .enoent
      else if cookie ≠ 0 then .error .enoent
      else .ok (1, statName)

/-- `procfs_op_stat`. -/
def procfsOpStat (ps : Procs) (path : Path) : Except Err FsStat :=
  if path.head? ≠ some slash then .error .einval
  else if procfsPathIsRoot path then .ok { kind := .dir, size := 0 }
  else
    match procfsParsePid path with
    | none => .error .enoent
    | some (pid, tail) =>
      match (nxProcessLookupByPid ps pid).bind ps.slot with
      | none => .error .enoent
      | some p =>
        if procfsTailIsDir tail then .ok { kind := .dir, size := 0 }
        else if tail = slash :: statName then
          .ok { kind := .file, size := (procfsRenderStat p procfsStatBufsz).length }
        else .error .enoent

/-! ### What an open does to the pool -/

/-- An open fails, or takes a free record for the process whose pid is in the path. -/
theorem procfsOpOpen_eq (s : ProcfsState) (ps : Procs) (path : Path) (flags : UInt32) :
    procfsOpOpen s ps path flags = (s, 0) ∨ ∃ pid tail p opens i, procfsParsePid path =
      some (pid, tail) ∧ (nxProcessLookupByPid ps pid).bind ps.slot = some p ∧
      s.opens.alloc { buf := procfsRenderStat p procfsStatBufsz } = some (opens, i) ∧
      procfsOpOpen s ps path flags = ({ opens }, idxToId i) := by
  unfold procfsOpOpen
  split_ifs
  · exact .inl rfl
  · exact .inl rfl
  split
  · exact .inl rfl
  next pid tail hparse =>
    split_ifs
    · exact .inl rfl
    split
    · exact .inl rfl
    next p hp =>
      split
      · exact .inl rfl
      next opens i halloc => exact .inr ⟨pid, tail, p, opens, i, hparse, hp, halloc, rfl⟩

theorem procfsOpOpen_cases (s : ProcfsState) (ps : Procs) (path : Path) (flags : UInt32) :
    s.opens.Opened (procfsOpOpen s ps path flags).1.opens (procfsOpOpen s ps path flags).2 := by
  rcases procfsOpOpen_eq s ps path flags with heq | ⟨_, _, p, opens, i, -, -, halloc, heq⟩ <;> rw [heq]
  · exact .inl ⟨rfl, rfl⟩
  · obtain ⟨hfree, rfl⟩ := RefPool.alloc_eq_some halloc
    exact .inr ⟨i, _, hfree, rfl, rfl⟩

end Nonux.Components
