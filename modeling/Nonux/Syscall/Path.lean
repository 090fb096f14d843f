import Nonux.Framework.Abi

/-!
# Paths on their way into the kernel (`framework/syscall.c`)

A path is a C string: its bytes, without the terminating NUL. This module has the
three functions that every path-taking syscall runs before it asks the vfs:
`copy_path_from_user`, `path_normalize` and `path_make_absolute`. The buffers hold
`NX_PATH_MAX` bytes with the NUL, and both rewriting functions cut what does not fit.
-/

namespace Nonux.Syscall

open Nonux.Framework

/-- The bytes of a C string. -/
abbrev Path := List UInt8

/-- `NX_PATH_MAX`. -/
def nxPathMax : ℕ := 128

/-- The byte `'/'`. -/
def slash : UInt8 := 47

/-- The byte `'.'`. -/
def dot : UInt8 := 46

/-- User memory, as the kernel reads it during one syscall. -/
abbrev UserMem := Addr → UInt8

/-- The loop of `copy_path_from_user`: `n` bytes of the buffer are left, `i` are filled. -/
def copyPathLoop (mem : UserMem) (userSrc : Addr) : ℕ → ℕ → Except Err Path
  | 0, _ => .error .einval
  | n + 1, i =>
    match userRangeCheck (userSrc + UInt64.ofNat i) 1 with
    | .error e => .error e
    | .ok () =>
      let ch := mem (userSrc + UInt64.ofNat i)
      if ch = 0 then .ok [] else (copyPathLoop mem userSrc n (i + 1)).map (ch :: ·)

/-- `copy_path_from_user`, with a buffer of `cap` bytes. -/
def copyPathFromUser (mem : UserMem) (cap : ℕ) (userSrc : Addr) : Except Err Path :=
  if userSrc = 0 ∨ cap = 0 then .error .einval else copyPathLoop mem userSrc cap 0

/-- What `path_normalize` has written, and where in it each segment it may still take
back began (`stk`, the last one first). -/
structure NormState where
  out : Path
  stk : List ℕ := []

/-- Append a real segment, with a separator unless the path so far is the root. -/
def NormState.push (st : NormState) (seg : Path) : NormState :=
  let stk := if st.stk.length < nxPathMax / 2 then st.out.length :: st.stk else st.stk
  let out := if 1 < st.out.length ∧ st.out.length < nxPathMax - 1 then st.out ++ [slash] else st.out
  { out := out ++ seg.take (nxPathMax - 1 - out.length), stk }

/-- One segment of `path_normalize`. -/
def NormState.segment (st : NormState) (seg : Path) : NormState :=
  if seg = [dot] then st
  else if seg = [dot, dot] then
    match st.stk with
    | [] => st
    | pos :: rest => { out := st.out.take pos, stk := rest }
  else st.push seg

/-- `path_normalize`. A path that is not absolute is left alone. -/
def pathNormalize (path : Path) : Path :=
  match path with
  | [] => []
  | b :: rest =>
    if b ≠ slash then path
    else (((rest.splitOn slash).filter (· ≠ [])).foldl NormState.segment { out := [slash] }).out

/-- `while (oi > 1 && tmp[oi - 1] == '/') oi--`. -/
def stripTrailingSlashes (tmp : Path) : Path :=
  match (tmp.reverse.dropWhile (· = slash)).reverse with
  | [] => tmp.take 1
  | stripped => stripped

/-- The scratch buffer of `path_make_absolute`: `cwd`, a separator and `kpath`, cut to
what fits. -/
def joinCwd (cwd kpath : Path) : Path :=
  let tmp := stripTrailingSlashes (cwd.take (nxPathMax - 1))
  let tmp := if tmp.length < nxPathMax - 1 then tmp ++ [slash] else tmp
  tmp ++ kpath.take (nxPathMax - 1 - tmp.length)

/-- `path_make_absolute`, for a process whose working directory is `cwd`. -/
def pathMakeAbsolute (cwd kpath : Path) : Path :=
  if kpath.head? = some slash then pathNormalize kpath
  else pathNormalize (joinCwd (if cwd.head? = some slash then cwd else [slash]) kpath)

end Nonux.Syscall
