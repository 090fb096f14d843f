import Nonux.Framework.Handle
import Nonux.Lib.Prog
import Nonux.Syscall.Path

/-!
# What syscalls touch in user memory (`framework/syscall.c`)

Every handler of the dispatch table, as a program over the bytes it reads and writes
through pointers it got from user space, whether in its arguments or in memory those
point to (the strings of an `argv` array, the buffers of an iovec).

## The model

There are two levels. A handler that goes through `copy_from_user` and `copy_to_user`
alone is a `UserM` program: its operations are these copies and calls of kernel
functions that see no user memory, whose answers are left open (`KernelCall`). What
really happens is a `MemM` program, in which a copy is its range check followed by a
load or a store for each byte (`UserOp.exec`). Two handlers are written at that level
directly, because they touch memory without a copy: `sys_debug_write` loads from its
buffer as it is, and `sys_mmap` clears the pages it gives out.

## What is proved

* `copyPathFromUser_result`: the path that comes out of the loads is the one
  `Nonux.Syscall.copyPathFromUser` reads.
* `UserOp.exec_inWindow`: a copy touches the user window only, and so does every handler
  that is built from copies (`checked_inWindow`).
* `sysMmap_inWindow`: so does `sys_mmap`.
* `user_access_in_window_iff`: a syscall stays in the window exactly when it is not a
  `debug_write` of bytes outside.
-/

namespace Nonux.Syscall.UserAccess

open Nonux.Framework Nonux.Lib
open Prog hiding pure

/-! ### Operations -/

/-- Kernel functions that handlers call with no user pointer. -/
inductive KernelFn where
  | nxHookDispatch
  | uartPutc
  | sysHandleClose
  /-- `nx_channel_create` and the allocation of the two handles. -/
  | nxChannelCreate
  /-- The closes after the handles could not be copied out. -/
  | undoChannelCreate
  | nxChannelSend
  | nxChannelRecv
  | nxCharDeviceRead
  | nxCharDeviceWrite
  | nxVfsRead
  | nxVfsWrite
  | nxVfsSeek
  /-- `sys_open` once it has the path. -/
  | openPath
  | nxVfsReaddir
  | nxVfsStat
  | nxVfsMkdir
  /-- The listing loop of `sys_getdents64`, into its staging buffer. -/
  | fillDirents
  | nxProcessExit
  | sysFork
  /-- The wait of `sys_wait` for a child to have exited. -/
  | waitExited
  | reapChild
  /-- `sys_exec` once it has the path and the arguments. -/
  | loadImage
  | sysSignal
  | sysBrk
  /-- `mmap_bump` of the current process. -/
  | mmapBump
  | sysDup3
  | sysFcntl
  /-- The listeners, the wait and the readiness of `sys_ppoll`. -/
  | pollFds
  | nxConfigOpen
  | nxConfigQuerySnapshot
  | nxConfigSwapComponent
  | nxConfigSetConnMode
  | setCwd
  | cwdBytes
  | nxProcessCurrent
  deriving DecidableEq, Repr

/-- What a kernel function is given: words and bytes. -/
structure KernelCall where
  fn : KernelFn
  args : List UInt64 := []
  bytes : List UInt8 := []

/-- What it gives back: a status or a count, words, and the bytes of a buffer it filled. -/
structure Reply where
  rc : ℤ := 0
  words : List UInt64 := []
  bytes : List UInt8 := []

/-- What a handler asks of the kernel. -/
inductive Query where
  /-- The entry a handle stands for. -/
  | entry (h : Handle)
  | call (c : KernelCall)

/-- An entry, as handlers look at it: its type, its rights, and whether its target is the
console. -/
structure EntryView where
  type : HandleType
  rights : UInt32
  console : Bool

/-- The type of the answer. -/
def Query.Ans : Query → Type
  | .entry _ => Except Err EntryView
  | .call _ => Reply

/-- An operation on user memory that is made as it is. -/
inductive MemOp where
  | load (a : Addr)
  | store (a : Addr) (b : UInt8)
  | ask (q : Query)

/-- The type of its answer. -/
def MemOp.Res : MemOp → Type
  | .load _ => UInt8
  | .store _ _ => Unit
  | .ask q => q.Ans

/-- Programs over plain loads and stores. -/
abbrev MemM := Prog MemOp MemOp.Res

/-- An operation of a handler that checks its pointers. -/
inductive UserOp where
  | copyFromUser (userSrc : Addr) (len : UInt64)
  | copyToUser (userDst : Addr) (ksrc : List UInt8) (len : UInt64)
  | ask (q : Query)

/-- The type of its answer. -/
def UserOp.Res : UserOp → Type
  | .copyFromUser _ _ => Except Err (List UInt8)
  | .copyToUser _ _ _ => Except Err Unit
  | .ask q => q.Ans

/-- Programs over copies. -/
abbrev UserM := Prog UserOp UserOp.Res

/-- The `memcpy` from user memory: bytes `i` to `i + n` of the buffer. -/
def loads (a : Addr) : ℕ → ℕ → MemM (List UInt8)
  | 0, _ => pure []
  | n + 1, i => do
    let b : UInt8 ← Prog.perform (MemOp.load (a + UInt64.ofNat i))
    return b :: (← loads a n (i + 1))

/-- The `memcpy` to user memory. -/
def stores (a : Addr) (src : ℕ → UInt8) : ℕ → ℕ → MemM Unit
  | 0, _ => pure ()
  | n + 1, i => do
    let _ : Unit ← Prog.perform (MemOp.store (a + UInt64.ofNat i) (src i))
    stores a src n (i + 1)

/-- **What an operation of a handler is**: `copy_from_user` and `copy_to_user` check the
range and then touch every byte of it. -/
def UserOp.exec : (o : UserOp) → MemM o.Res
  | .copyFromUser p len =>
    match userRangeCheck p len with
    | .error e => pure (.error e)
    | .ok () => do return .ok (← loads p len.toNat 0)
  | .copyToUser p src len =>
    match userRangeCheck p len with
    | .error e => pure (.error e)
    | .ok () => do return .ok (← stores p (fun i => src.getD i 0) len.toNat 0)
  | .ask q => Prog.perform (MemOp.ask q)

/-- A handler, down to loads and stores. -/
def checked {α : Type} (p : UserM α) : MemM α := Prog.interp UserOp.exec p

/-! ### The helpers of the handlers -/

/-- `copy_from_user`. -/
def copyFromUser (userSrc : Addr) (len : UInt64) : UserM (Except Err (List UInt8)) :=
  Prog.perform (UserOp.copyFromUser userSrc len)

/-- `copy_to_user`. -/
def copyToUser (userDst : Addr) (ksrc : List UInt8) (len : UInt64) : UserM (Except Err Unit) :=
  Prog.perform (UserOp.copyToUser userDst ksrc len)

/-- The entry of a handle: `nx_handle_lookup`, or the entry 2 where 0 stands for it. -/
def entry (h : Handle) : UserM (Except Err EntryView) := Prog.perform (UserOp.ask (.entry h))

/-- Call a kernel function. -/
def kernel (fn : KernelFn) (args : List UInt64 := []) (bytes : List UInt8 := []) : UserM Reply :=
  Prog.perform (UserOp.ask (.call { fn, args, bytes }))

/-- A handler that is a call of a kernel function, and touches no user memory. -/
def kernelOnly (fn : KernelFn) (args : List UInt64) : UserM ℤ := do return (← kernel fn args).rc

/-- The loop of `copy_path_from_user`, as in `copyPathLoop`. -/
def copyPathLoop (userSrc : Addr) : ℕ → ℕ → UserM (Except Err Path)
  | 0, _ => return .error .einval
  | n + 1, i => do
    match ← copyFromUser (userSrc + UInt64.ofNat i) 1 with
    | .error e => return .error e
    | .ok bytes =>
      let ch := bytes.getD 0 0
      if ch = 0 then return .ok []
      else return (← copyPathLoop userSrc n (i + 1)).map (ch :: ·)

/-- `copy_path_from_user`. -/
def copyPathFromUser (cap : ℕ) (userSrc : Addr) : UserM (Except Err Path) :=
  if userSrc = 0 ∨ cap = 0 then return .error .einval else copyPathLoop userSrc cap 0

/-- A little-endian word in a buffer. -/
def le64 (bytes : List UInt8) (off : ℕ) : UInt64 :=
  (List.range 8).foldr (fun i w => w * 256 + (bytes.getD (off + i) 0).toUInt64) 0

/-- The bytes of a 32-bit word. -/
def bytes32 (w : UInt64) : List UInt8 := (List.range 4).map fun i => (w >>> (8 * UInt64.ofNat i)).toUInt8

/-- The argument as a C `int`. -/
def asInt (a : UInt64) : ℤ := a.toUInt32.toInt32.toInt

/-- A count as a `size_t`. -/
def asSize (n : ℤ) : UInt64 := UInt64.ofNat n.toNat

/-- `NX_LINUX_EINVAL` and its like, where handlers return Linux numbers. -/
def linuxEinval : ℤ := -22
@[inherit_doc linuxEinval] def linuxEnoent : ℤ := -2
@[inherit_doc linuxEinval] def linuxEbadf : ℤ := -9
@[inherit_doc linuxEinval] def linuxEnotty : ℤ := -25
@[inherit_doc linuxEinval] def linuxEexist : ℤ := -17
@[inherit_doc linuxEinval] def linuxEnomem : ℤ := -12
@[inherit_doc linuxEinval] def linuxEnotdir : ℤ := -20

/-- `NX_CHANNEL_MSG_MAX` and `NX_FILE_IO_MAX`. -/
def ioMax : UInt64 := 256

/-! ### Channels -/

/-- `sys_channel_create`. -/
def sysChannelCreate (userEnd0 userEnd1 : Addr) : UserM ℤ := do
  if userEnd0 = 0 ∨ userEnd1 = 0 then return Err.einval.code
  let r ← kernel .nxChannelCreate
  if r.rc ≠ 0 then return r.rc
  let rc ← copyToUser userEnd0 (bytes32 (r.words.getD 0 0)) 4
  let rc ← match rc with
    | .ok () => copyToUser userEnd1 (bytes32 (r.words.getD 1 0)) 4
    | .error e => pure (.error e)
  match rc with
  | .ok () => return 0
  | .error e => do
    let _ ← kernel .undoChannelCreate r.words
    return e.code

/-- `lookup_channel_endpoint`. -/
def lookupChannelEndpoint (h : Handle) (needRights : UInt32) : UserM (Except Err Unit) := do
  match ← entry h with
  | .error e => return .error e
  | .ok v =>
    if v.type ≠ .channel then return .error .einval
    else if v.rights &&& needRights ≠ needRights then return .error .eperm
    else return .ok ()

/-- `sys_channel_send`. -/
def sysChannelSend (h : Handle) (buf : Addr) (len : UInt64) : UserM ℤ := do
  if len > ioMax then return Err.einval.code
  match ← lookupChannelEndpoint h nxRightWrite with
  | .error e => return e.code
  | .ok () =>
    match ← copyFromUser buf len with
    | .error e => return e.code
    | .ok staging => return (← kernel .nxChannelSend [h.toUInt64] staging).rc

/-- The end of a read: what was received is copied out. -/
def copyOutReceived (buf : Addr) (r : Reply) : UserM ℤ := do
  match ← copyToUser buf r.bytes (asSize r.rc) with
  | .error e => return e.code
  | .ok () => return r.rc

/-- `sys_channel_recv`. -/
def sysChannelRecv (h : Handle) (buf : Addr) (cap : UInt64) : UserM ℤ := do
  if cap = 0 then return Err.einval.code
  match ← lookupChannelEndpoint h nxRightRead with
  | .error e => return e.code
  | .ok () =>
    let r ← kernel .nxChannelRecv [h.toUInt64, min cap ioMax]
    if r.rc < 0 then return r.rc else copyOutReceived buf r

/-- `sys_pipe`. -/
def sysPipe (userFds : Addr) : UserM ℤ := do
  if userFds = 0 then return Err.einval.code
  let r ← kernel .nxChannelCreate
  if r.rc ≠ 0 then return r.rc
  match ← copyToUser userFds (bytes32 (r.words.getD 0 0) ++ bytes32 (r.words.getD 1 0)) 8 with
  | .ok () => return 0
  | .error e => do
    let _ ← kernel .undoChannelCreate r.words
    return e.code

/-! ### Reading and writing -/

/-- `sys_read`. -/
def sysRead (h : Handle) (buf : Addr) (cap : UInt64) : UserM ℤ := do
  if cap = 0 then return 0
  match ← entry h with
  | .error _ => return Err.enoent.code
  | .ok v =>
    if v.rights &&& nxRightRead ≠ nxRightRead then return Err.eperm.code
    else if v.type = .channel then
      let r ← kernel .nxChannelRecv [h.toUInt64, min cap ioMax]
      if r.rc < 0 then return r.rc else copyOutReceived buf r
    else if v.type = .resource then
      if v.console then
        let r ← kernel .nxCharDeviceRead [h.toUInt64, min cap ioMax]
        if r.rc ≤ 0 then return r.rc else copyOutReceived buf r
      else
        let r ← kernel .nxVfsRead [h.toUInt64, min cap ioMax]
        if r.rc < 0 then return r.rc else copyOutReceived buf r
    else return Err.einval.code

/-- `sys_write`. -/
def sysWrite (h : Handle) (buf : Addr) (len : UInt64) : UserM ℤ := do
  if len = 0 then return 0
  match ← entry h with
  | .error e => return e.code
  | .ok v =>
    if v.rights &&& nxRightWrite ≠ nxRightWrite then return Err.eperm.code
    else if v.type = .channel ∨ v.type = .resource then
      match ← copyFromUser buf (min len ioMax) with
      | .error e => return e.code
      | .ok staging =>
        let fn := if v.type = .channel then .nxChannelSend else if v.console then
        .nxCharDeviceWrite else .nxVfsWrite return (← kernel fn [h.toUInt64] staging).rc
    else return Err.einval.code

/-- The loop of `sys_readv` and `sys_writev` over the vectors that are left: each goes
through `sys_read` or `sys_write`, and the first short one ends it. -/
def iovLoop (io : Addr → UInt64 → UserM ℤ) : List (Addr × UInt64) → ℤ → UserM ℤ
  | [], total => return total
  | (iovBase, iovLen) :: rest, total => do
    if iovLen = 0 then iovLoop io rest total
    else
      let got ← io iovBase iovLen
      if got < 0 then return if total > 0 then total else got
      else if got.toNat < iovLen.toNat then return total + got
      else iovLoop io rest (total + got)

/-- The common body of `sys_readv` and `sys_writev`, with `NX_IOV_MAX_LOCAL` 16. -/
def sysIov (io : Addr → UInt64 → UserM ℤ) (iovs : Addr) (a2 : UInt64) : UserM ℤ := do
  let count := asInt a2
  if count < 0 then return Err.einval.code
  else if count = 0 then return 0
  else if count > 16 then return Err.einval.code
  else
    match ← copyFromUser iovs (asSize (count * 16)) with
    | .error e => return e.code
    | .ok kiov => iovLoop io ((List.range count.toNat).map
          fun i => (le64 kiov (16 * i), le64 kiov (16 * i + 8))) 0

/-- `sys_writev`. -/
def sysWritev (h : Handle) (iovs : Addr) (a2 : UInt64) : UserM ℤ := sysIov (sysWrite h) iovs a2

/-- `sys_readv`. -/
def sysReadv (h : Handle) (iovs : Addr) (a2 : UInt64) : UserM ℤ := sysIov (sysRead h) iovs a2

/-! ### Files -/

/-- `sys_open`. -/
def sysOpen (userPath : Addr) (flags : UInt64) : UserM ℤ := do
  match ← copyPathFromUser nxPathMax userPath with
  | .error e => return e.code
  | .ok kpath => return (← kernel .openPath [flags] kpath).rc

/-- The flags of `sys_openat`, from those of Linux. -/
def openatFlags (lin : UInt32) : UInt64 :=
  let acc := lin &&& 3
  let flags : UInt64 := if acc = 0 then 1 else if acc = 1 then 2 else if acc = 2 then 3 else 0
  (flags ||| if lin &&& 0o100 ≠ 0 then 4 else 0) ||| if lin &&& 0o2000 ≠ 0 then 8 else 0

/-- `sys_openat`. -/
def sysOpenat (userPath : Addr) (a2 : UInt64) : UserM ℤ := sysOpen userPath (openatFlags a2.toUInt32)

/-- `sys_readdir`, whose `struct nx_fs_dirent` has 68 bytes. -/
def sysReaddir (userCookie userOut : Addr) : UserM ℤ := do
  if userCookie = 0 ∨ userOut = 0 then return Err.einval.code
  match ← copyFromUser userCookie 4 with
  | .error e => return e.code
  | .ok kcookie =>
    let r ← kernel .nxVfsReaddir [] kcookie
    if r.rc ≠ 0 then return r.rc
    match ← copyToUser userOut r.bytes 68 with
    | .error e => return e.code
    | .ok () =>
      match ← copyToUser userCookie (bytes32 (r.words.getD 0 0)) 4 with
      | .error e => return e.code
      | .ok () => return 0

/-- `sys_fstatat`, whose `struct nx_user_stat_aarch64` has 128 bytes. -/
def sysFstatat (userPath userBuf : Addr) : UserM ℤ := do
  if userPath = 0 ∨ userBuf = 0 then return linuxEinval
  match ← copyPathFromUser nxPathMax userPath with
  | .error _ => return linuxEinval
  | .ok kpath =>
    let r ← kernel .nxVfsStat [] kpath
    if r.rc = Err.enoent.code then return linuxEnoent
    else if r.rc ≠ 0 then return linuxEinval
    else
      match ← copyToUser userBuf r.bytes 128 with
      | .error _ => return linuxEinval
      | .ok () => return 0

/-- `sys_getdents64`. -/
def sysGetdents64 (h : Handle) (userBuf : Addr) (cap : UInt64) : UserM ℤ := do
  if userBuf = 0 ∨ cap = 0 then return linuxEinval
  match ← entry h with
  | .error _ => return linuxEbadf
  | .ok v =>
    if v.type ≠ .dir then return linuxEbadf
    else
      let r ← kernel .fillDirents [h.toUInt64, min cap 4096]
      if r.rc < 0 then return linuxEinval
      else if r.rc = 0 then return 0
      else
        match ← copyToUser userBuf r.bytes (asSize r.rc) with
        | .error _ => return linuxEinval
        | .ok () => return r.rc

/-- `sys_mkdirat`. -/
def sysMkdirat (userPath : Addr) : UserM ℤ := do
  match ← copyPathFromUser nxPathMax userPath with
  | .error _ => return linuxEinval
  | .ok kpath =>
    let rc := (← kernel .nxVfsMkdir [] kpath).rc
    return if rc = 0 then 0 else if rc = Err.eexist.code then linuxEexist else if rc =
      Err.enomem.code then linuxEnomem
      else if rc = Err.enoent.code then linuxEnoent else linuxEinval

/-- `sys_chdir`. -/
def sysChdir (userPath : Addr) : UserM ℤ := do
  match ← copyPathFromUser nxPathMax userPath with
  | .error _ => return linuxEinval
  | .ok kpath =>
    let r ← kernel .nxVfsStat [] kpath
    if r.rc = Err.enoent.code then return linuxEnoent
    else if r.rc ≠ 0 then return linuxEinval
    -- The kind in the answer is `NX_FS_KIND_DIR`.
    else if r.words.getD 0 0 ≠ 2 then return linuxEnotdir
    else return (← kernel .setCwd [] kpath).rc

/-- `sys_getcwd`. -/
def sysGetcwd (userBuf : Addr) (size : UInt64) : UserM ℤ := do
  if userBuf = 0 ∨ size = 0 then return linuxEinval
  let r ← kernel .cwdBytes
  let len := UInt64.ofNat r.bytes.length
  if len > size then return linuxEinval
  else
    match ← copyToUser userBuf r.bytes len with
    | .error _ => return linuxEinval
    | .ok () => return len.toNat

/-! ### Processes -/

/-- `sys_wait`. A failed copy of the status is ignored. -/
def sysWait (a0 : UInt64) (userStatus : Addr) : UserM ℤ := do
  let r ← kernel .waitExited [a0]
  if r.rc < 0 then return r.rc
  if userStatus ≠ 0 then
    let _ ← copyToUser userStatus (bytes32 (r.words.getD 0 0)) 4
  let _ ← kernel .reapChild [asSize r.rc]
  return r.rc

/-- The loop of `sys_exec` over `argv`, which has `fuel` entries to go, `argc` behind it and
`argvStrLen` bytes of strings: it returns the strings. -/
def argvLoop (userArgv : Addr) : ℕ → ℕ → ℕ → UserM (Except Err (List Path))
  | 0, _, _ => return .ok []
  | fuel + 1, argc, argvStrLen => do
    match ← copyFromUser (userArgv + UInt64.ofNat (8 * argc)) 8 with
    | .error e => return .error e
    | .ok bytes =>
      let userStrPtr := le64 bytes 0
      if userStrPtr = 0 then return .ok []
      else
        let remain := 1024 - argvStrLen
        if remain = 0 then return .ok []
        else
          match ← copyPathFromUser remain userStrPtr with
          | .error e => return .error e
          | .ok str => return (← argvLoop userArgv fuel (argc + 1)
                (argvStrLen + str.length + 1)).map (str :: ·)

/-- `sys_exec`, with `SYS_EXEC_ARGV_MAX` 16. Without arguments the path is the only one. -/
def sysExec (userPath userArgv : Addr) : UserM ℤ := do
  match ← copyPathFromUser nxPathMax userPath with
  | .error e => return e.code
  | .ok kpath =>
    let argv ← if userArgv = 0 then pure (.ok []) else argvLoop userArgv 16 0 0
    match argv with
    | .error e => return e.code
    | .ok argv =>
      let argv := if argv = [] then [kpath] else argv
      return (← kernel .loadImage [] (kpath ++ argv.flatten)).rc

/-- `struct nx_utsname`: six fields of 65 bytes. -/
def utsname : List UInt8 :=
  ["nonux", "nonux", "0.1", "v1", "aarch64", "(none)"].flatMap fun field =>
    (List.range 65).map fun i => UInt8.ofNat ((field.toList.getD i '\x00').toNat)

/-- `sys_uname`. -/
def sysUname (userBuf : Addr) : UserM ℤ := do
  if userBuf = 0 then return Err.einval.code
  match ← copyToUser userBuf utsname 390 with
  | .error e => return e.code
  | .ok () => return 0

/-! ### Devices, polling and configuration -/

/-- `sys_ioctl`. -/
def sysIoctl (h : Handle) (cmd : UInt64) (arg : Addr) : UserM ℤ := do
  match ← entry h with
  | .error e => return e.code
  | .ok v =>
    if v.type ≠ .resource ∨ v.console = false then return linuxEnotty
    -- `TCGETS` fills a `struct termios` with zeros and `TIOCGWINSZ` a `struct winsize` of 24 by 80.
    else if cmd = 0x5401 ∨ cmd = 0x5413 then
      if arg = 0 then return Err.einval.code
      else
        let out := if cmd = 0x5401 then List.replicate 36 0 else [24, 0, 80, 0, 0, 0, 0, 0]
        match ← copyToUser arg out (UInt64.ofNat out.length) with
        | .error e => return e.code
        | .ok () => return 0
    else if cmd = 0x5402 ∨ cmd = 0x5403 ∨ cmd = 0x5404 then return 0
    else return linuxEnotty

/-- The timeout of `sys_ppoll` is refused: a negative field, or a second or more of
nanoseconds. -/
def badTimespec (kts : List UInt8) : Bool :=
  let sec := (le64 kts 0).toInt64.toInt
  let nsec := (le64 kts 8).toInt64.toInt
  decide (sec < 0 ∨ nsec < 0 ∨ nsec ≥ 1000000000)

/-- `sys_ppoll` from where it has the timeout on. A `struct nx_pollfd` has 8 bytes. -/
def pollWith (userFds : Addr) (nfds : UInt64) (kts : List UInt8) : UserM ℤ := do
  if nfds = 0 then return (← kernel .pollFds [nfds] kts).rc
  else
    match ← copyFromUser userFds (nfds * 8) with
    | .error _ => return linuxEinval
    | .ok kfds =>
      let r ← kernel .pollFds [nfds] (kts ++ kfds)
      match ← copyToUser userFds r.bytes (nfds * 8) with
      | .error _ => return linuxEinval
      | .ok () => return r.rc

/-- `sys_ppoll`, with `NX_PPOLL_MAX_FDS` 32. -/
def sysPpoll (userFds : Addr) (nfds : UInt64) (userTs : Addr) : UserM ℤ := do
  if nfds > 32 then return linuxEinval
  else if userTs = 0 then pollWith userFds nfds []
  else
    match ← copyFromUser userTs 16 with
    | .error _ => return linuxEinval
    | .ok kts => if badTimespec kts then return linuxEinval else pollWith userFds nfds kts

/-- The handle check of the configuration syscalls. -/
def lookupConfig (h : Handle) : UserM (Except Err Unit) := do
  match ← entry h with
  | .error e => return .error e
  | .ok v => return if v.type = .config then .ok () else .error .einval

/-- `sys_config_query`, whose `struct nx_config_snapshot` has 2192 bytes. -/
def sysConfigQuery (h : Handle) (userBuf : Addr) : UserM ℤ := do
  match ← lookupConfig h with
  | .error e => return e.code
  | .ok () =>
    if userBuf = 0 then return Err.einval.code
    else
      let r ← kernel .nxConfigQuerySnapshot
      if r.rc ≠ 0 then return r.rc
      else
        match ← copyToUser userBuf r.bytes 2192 with
        | .error e => return e.code
        | .ok () => return 0

/-- The two names of `sys_config_swap` and `sys_config_rewire`, of 32 bytes each. -/
def configNames (user0 user1 : Addr) (fn : KernelFn) (args : List UInt64) : UserM ℤ := do
  match ← copyPathFromUser 32 user0 with
  | .error _ => return Err.einval.code
  | .ok name0 =>
    match ← copyPathFromUser 32 user1 with
    | .error _ => return Err.einval.code
    | .ok name1 => return (← kernel fn args (name0 ++ 0 :: name1)).rc

/-- `sys_config_swap`. -/
def sysConfigSwap (h : Handle) (userSlot userImpl : Addr) : UserM ℤ := do
  match ← lookupConfig h with
  | .error e => return e.code
  | .ok () => configNames userSlot userImpl .nxConfigSwapComponent []

/-- `sys_config_rewire`. -/
def sysConfigRewire (h : Handle) (userFrom userTo : Addr) (a3 : UInt64) : UserM ℤ := do
  match ← lookupConfig h with
  | .error e => return e.code
  | .ok () =>
    if userFrom = 0 ∨ userTo = 0 then return Err.einval.code
    else if asInt a3 ≠ 0 ∧ asInt a3 ≠ 1 then return Err.einval.code
    else configNames userFrom userTo .nxConfigSetConnMode [a3]

/-! ### The two handlers without copies -/

/-- Call a kernel function. -/
def kernelMem (fn : KernelFn) (args : List UInt64) : MemM Reply :=
  Prog.perform (MemOp.ask (.call { fn, args }))

/-- The loop of `sys_debug_write`: the byte at `buf[i]` goes to the UART, with `n` to go. -/
def debugWriteLoop (buf : Addr) : ℕ → ℕ → MemM Unit
  | 0, _ => pure ()
  | n + 1, i => do
    let ch : UInt8 ← Prog.perform (MemOp.load (buf + UInt64.ofNat i))
    let _ ← kernelMem .uartPutc [ch.toUInt64]
    debugWriteLoop buf n (i + 1)

/-- `sys_debug_write`. -/
def sysDebugWrite (buf : Addr) (len : UInt64) : MemM ℤ :=
  if buf = 0 ∧ len > 0 then pure Err.einval.code
  else if len > 4096 then pure Err.einval.code
  else do
    debugWriteLoop buf len.toNat 0
    return len.toNat

/-- The arena of `sys_mmap`: `NX_PROCESS_MMAP_OFFSET` and `NX_PROCESS_MMAP_LIMIT` into the
window. -/
def mmapLo : Addr := mmuUserWindowBase + 0x200000
@[inherit_doc mmapLo] def mmapHi : Addr := mmuUserWindowBase + 0x500000

/-- Where `sys_mmap` gives out pages: a bump pointer outside the arena is reset. -/
def mmapVa (bump : Addr) : Addr := if bump < mmapLo ∨ bump > mmapHi then mmapLo else bump

/-- `sys_mmap`, which clears the pages it gives out. -/
def sysMmap (length a3 a4 offset : UInt64) : MemM ℤ := do
  let flags := a3.toUInt32
  if length = 0 ∨ asInt a4 ≠ -1 ∨ offset ≠ 0 ∨ flags &&& 0x20 = 0 ∨ flags &&& 0x10 ≠ 0 then
    return Err.einval.code
  else
    let want := (length + 4095) &&& ~~~4095
    let r ← kernelMem .mmapBump []
    let va := mmapVa (r.words.getD 0 0)
    if want > mmapHi - va then return Err.enomem.code
    else
      stores va (fun _ => 0) want.toNat 0
      return va.toNat

/-! ### Dispatch -/

/-- `NX_SYS_DEBUG_WRITE`. -/
def nxSysDebugWrite : UInt64 := 1

/-- `g_syscall_table`: the handler of a number, applied to its arguments. -/
def syscallTable (num : UInt64) (a : Fin 6 → UInt64) : Option (MemM ℤ) :=
  let h := (a 0).toUInt32
  match num.toNat with
  | 1 => some (sysDebugWrite (a 0) (a 1))
  | 2 => some (checked (kernelOnly .sysHandleClose [a 0]))
  | 3 => some (checked (sysChannelCreate (a 0) (a 1)))
  | 4 => some (checked (sysChannelSend h (a 1) (a 2)))
  | 5 => some (checked (sysChannelRecv h (a 1) (a 2)))
  | 6 => some (checked (sysOpen (a 0) (a 1)))
  | 7 => some (checked (sysRead h (a 1) (a 2)))
  | 8 => some (checked (sysWrite h (a 1) (a 2)))
  | 9 => some (checked (kernelOnly .nxVfsSeek [a 0, a 1, a 2]))
  | 10 => some (checked (sysReaddir (a 0) (a 1)))
  | 11 => some (checked (kernelOnly .nxProcessExit [a 0]))
  | 12 => some (checked (kernelOnly .sysFork []))
  | 13 => some (checked (sysWait (a 0) (a 1)))
  | 14 => some (checked (sysExec (a 0) (a 1)))
  | 15 => some (checked (sysPipe (a 0)))
  | 16 => some (checked (kernelOnly .sysSignal [a 0, a 1]))
  | 17 => some (checked (kernelOnly .sysBrk [a 0]))
  | 18 => some (checked (sysWritev h (a 1) (a 2)))
  | 19 => some (sysMmap (a 1) (a 3) (a 4) (a 5))
  | 21 => some (checked (sysFstatat (a 1) (a 2)))
  | 22 => some (checked (sysGetdents64 h (a 1) (a 2)))
  | 23 => some (checked (sysOpenat (a 1) (a 2)))
  | 24 => some (checked (kernelOnly .sysDup3 [a 0, a 1, a 2]))
  | 25 => some (checked (sysReadv h (a 1) (a 2)))
  | 26 => some (checked (kernelOnly .sysFcntl [a 0, a 1, a 2]))
  | 37 => some (checked (sysUname (a 0)))
  | 39 => some (checked (sysIoctl h (a 1) (a 2)))
  | 40 => some (checked (sysMkdirat (a 1)))
  | 41 => some (checked (sysPpoll (a 0) (a 1) (a 2)))
  | 42 => some (checked (kernelOnly .nxConfigOpen []))
  | 43 => some (checked (sysConfigQuery h (a 1)))
  | 44 => some (checked (sysConfigSwap h (a 1) (a 2)))
  | 45 => some (checked (sysConfigRewire h (a 1) (a 2) (a 3)))
  | 46 => some (checked (sysChdir (a 0)))
  | 47 => some (checked (sysGetcwd (a 0) (a 1)))
  -- The pid of the current process or of its parent.
  | 35 | 36 | 38 => some (checked (kernelOnly .nxProcessCurrent []))
  -- Stubs that return 0: `munmap`, the signal masks, and the user and group ids.
  | 20 | 27 | 28 | 29 | 30 | 31 | 32 | 33 | 34 => some (pure 0)
  | _ => none

/-- `nx_syscall_dispatch`, between its hooks. `NX_HOOK_ABORT` is 1. -/
def nxSyscallDispatch (num : UInt64) (a : Fin 6 → UInt64) : MemM ℤ := do
  let hook ← kernelMem .nxHookDispatch [num]
  if hook.rc = 1 then return 0
  else
    match syscallTable num a with
    | none => return Err.enosys.code
    | some handler => handler

/-! ### The path that is read -/

theorem checked_bind {α β : Type} (p : UserM α) (f : α → UserM β) :
    checked (p >>= f) = checked p >>= fun a => checked (f a) := interp_bind UserOp.exec p f

variable {env : ℕ → (o : MemOp) → o.Res} {mem : UserMem}

/-- A copy of one byte, where loads read `mem`. -/
theorem copyByte_result (hmem : ∀ t a, env t (.load a) = mem a) (t : ℕ) (p : Addr) :
    (checked (copyFromUser p 1)).result env t = (userRangeCheck p 1).map fun _ => [mem p] := by
  have hexec : checked (copyFromUser p 1) = UserOp.exec (.copyFromUser p 1) := interp_perform _ _
  rw [hexec, UserOp.exec]
  cases userRangeCheck p 1 with
  | error e => rfl
  | ok u =>
    have hload : env t (.load (p + UInt64.ofNat 0)) = mem p :=
      (hmem t _).trans (congrArg mem (by simp))
    exact congrArg (fun b : UInt8 => (Except.ok [b] : Except Err (List UInt8))) hload

theorem copyPathLoop_result (hmem : ∀ t a, env t (.load a) = mem a) (userSrc : Addr) (n i t : ℕ) :
    (checked (copyPathLoop userSrc n i)).result env t = Syscall.copyPathLoop mem userSrc n i := by
  induction n generalizing i t with
  | zero => rfl
  | succ n ih =>
    rw [copyPathLoop, checked_bind, result_bind, copyByte_result hmem, Syscall.copyPathLoop]
    cases userRangeCheck (userSrc + UInt64.ofNat i) 1 with
    | error e => rfl
    | ok u =>
      simp only [Except.map, List.getD_cons_zero]
      split_ifs with hzero
      · rfl
      · rw [checked_bind, result_bind]
        exact congrArg (Except.map _) (ih (i + 1) _)

/-- **Down to single loads, `copy_path_from_user` reads the path that `sys_open` is modelled
with.** -/
theorem copyPathFromUser_result (hmem : ∀ t a, env t (.load a) = mem a) (cap : ℕ) (userSrc : Addr)
    (t : ℕ) :
    (checked (copyPathFromUser cap userSrc)).result env t =
      Syscall.copyPathFromUser mem cap userSrc := by
  unfold copyPathFromUser Syscall.copyPathFromUser
  split_ifs
  · rfl
  · exact copyPathLoop_result hmem userSrc cap 0 t

/-! ### Everything checked is in the window -/

/-- A load or store in the user window. -/
def MemOp.InWindow : MemOp → Prop
  | .load a => InUserWindow a
  | .store a _ => InUserWindow a
  | .ask _ => True

theorem loads_inWindow {a : Addr} {n i : ℕ}
    (h : ∀ j, i ≤ j → j < i + n → InUserWindow (a + UInt64.ofNat j)) :
    (loads a n i).All MemOp.InWindow := by
  induction n generalizing i with
  | zero => trivial
  | succ n ih =>
    refine all_op (h i le_rfl (by omega)) fun b => ?_
    exact all_bind (ih fun j hj hlt => h j (by omega) (by omega)) fun _ => all_pure _

theorem stores_inWindow {a : Addr} {src : ℕ → UInt8} {n i : ℕ}
    (h : ∀ j, i ≤ j → j < i + n → InUserWindow (a + UInt64.ofNat j)) :
    (stores a src n i).All MemOp.InWindow := by
  induction n generalizing i with
  | zero => trivial
  | succ n ih =>
    refine all_op (h i le_rfl (by omega)) fun _ => ?_
    exact ih fun j hj hlt => h j (by omega) (by omega)

/-- **A copy touches the user window only.** -/
theorem UserOp.exec_inWindow (o : UserOp) : o.exec.All MemOp.InWindow := by
  cases o with
  | copyFromUser p len =>
    rw [UserOp.exec]
    cases hcheck : userRangeCheck p len with
    | error e => trivial
    | ok u =>
      refine all_bind (loads_inWindow fun j _ hj => ?_) fun _ => all_pure _
      exact userRangeCheck_ok hcheck j (by omega)
  | copyToUser p src len =>
    rw [UserOp.exec]
    cases hcheck : userRangeCheck p len with
    | error e => trivial
    | ok u =>
      refine all_bind (stores_inWindow fun j _ hj => ?_) fun _ => all_pure _
      exact userRangeCheck_ok hcheck j (by omega)
  | ask q => exact all_perform trivial

/-- **So does every handler that is built from copies.** -/
theorem checked_inWindow {α : Type} (p : UserM α) : (checked p).All MemOp.InWindow :=
  all_interp UserOp.exec_inWindow p

/-- The arena of `sys_mmap` is in the window. -/
theorem mmap_inWindow {va want : UInt64} (hlo : mmapLo ≤ va) (hhi : va ≤ mmapHi)
    (hwant : want ≤ mmapHi - va) {j : ℕ} (hj : j < want.toNat) :
    InUserWindow (va + UInt64.ofNat j) := by
  have hroom : want.toNat ≤ mmapHi.toNat - va.toNat := by
    rw [UInt64.le_iff_toNat_le, UInt64.toNat_sub_of_le _ _ hhi] at hwant
    exact hwant
  rw [UInt64.le_iff_toNat_le] at hlo hhi
  have hlo' : mmuUserWindowBase.toNat ≤ mmapLo.toNat := by decide
  have hhi' : mmapHi.toNat ≤ mmuUserWindowBase.toNat + mmuUserWindowSize.toNat := by decide
  have hcap : mmapHi.toNat < 2 ^ 64 := by decide
  have hj' : (UInt64.ofNat j).toNat = j := by
    rw [UInt64.toNat_ofNat']; exact Nat.mod_eq_of_lt (by omega)
  unfold InUserWindow
  rw [UInt64.toNat_add, hj']
  omega

theorem mmapVa_mem (bump : Addr) : mmapLo ≤ mmapVa bump ∧ mmapVa bump ≤ mmapHi := by
  unfold mmapVa
  split_ifs with hout
  · exact ⟨by decide, by decide⟩
  · rw [not_or, UInt64.not_lt, gt_iff_lt, UInt64.not_lt] at hout
    exact hout

theorem sysMmap_inWindow (length a3 a4 offset : UInt64) :
    (sysMmap length a3 a4 offset).All MemOp.InWindow := by
  unfold sysMmap
  dsimp only
  split
  · trivial
  · refine all_op trivial fun r => ?_
    obtain ⟨hlo, hhi⟩ := mmapVa_mem (r.words.getD 0 0)
    split
    · trivial
    · next hwant =>
      rw [gt_iff_lt, UInt64.not_lt] at hwant
      refine all_bind (stores_inWindow fun j _ hj => ?_) fun _ => all_pure _
      exact mmap_inWindow hlo hhi hwant (by omega)

/-! ### The debug write -/

/-- The loads of the loop of `sys_debug_write` are those of the buffer. -/
theorem debugWriteLoop_loads (env : ℕ → (o : MemOp) → o.Res) (buf a : Addr) (n i t : ℕ) :
    MemOp.load a ∈ (debugWriteLoop buf n i).trace env t ↔ ∃ j, i ≤ j ∧ j < i + n ∧
      a = buf + UInt64.ofNat j := by
  induction n generalizing i t with
  | zero =>
    simp only [debugWriteLoop, Nat.add_zero]
    exact ⟨fun h => absurd h (by simp [Pure.pure, Prog.trace]),
      fun ⟨j, h₁, h₂, _⟩ => absurd h₂ (by omega)⟩
  | succ n ih =>
    have htrace : (debugWriteLoop buf (n + 1) i).trace env t = .load (buf + UInt64.ofNat i) ::
        .ask (.call { fn := .uartPutc, args := [(env t
          (.load (buf + UInt64.ofNat i)) : UInt8).toUInt64] }) ::
          (debugWriteLoop buf n (i + 1)).trace env (t + 1 + 1) := rfl
    rw [htrace]
    simp only [List.mem_cons, MemOp.load.injEq, reduceCtorEq, false_or, ih]
    constructor
    · rintro (rfl | ⟨j, h₁, h₂, rfl⟩)
      · exact ⟨i, le_rfl, by omega, rfl⟩
      · exact ⟨j, by omega, by omega, rfl⟩
    · rintro ⟨j, h₁, h₂, rfl⟩
      by_cases hj : j = i
      · exact .inl (by rw [hj])
      · exact .inr ⟨j, by omega, by omega, rfl⟩

variable {buf : Addr}

/-- A `debug_write` that gets as far as the loop loads every byte of its buffer. -/
theorem sysDebugWrite_loads (env : ℕ → (o : MemOp) → o.Res) {len : UInt64} (hbuf : buf ≠ 0)
    (hlen : len ≤ 4096) (t i : ℕ) (hi : i < len.toNat) :
    MemOp.load (buf + UInt64.ofNat i) ∈ (sysDebugWrite buf len).trace env t := by
  have hcap : ¬ len > 4096 := by rw [gt_iff_lt, UInt64.not_lt]; exact hlen
  rw [sysDebugWrite, if_neg (fun h => hbuf h.1), if_neg hcap, trace_bind]
  exact List.mem_append_left _
    ((debugWriteLoop_loads env buf _ _ _ t).mpr ⟨i, Nat.zero_le _, by omega, rfl⟩)

theorem debugWriteLoop_inWindow {n i : ℕ}
    (h : ∀ j, i ≤ j → j < i + n → InUserWindow (buf + UInt64.ofNat j)) :
    (debugWriteLoop buf n i).All MemOp.InWindow := by
  induction n generalizing i with
  | zero => trivial
  | succ n ih =>
    refine all_op (h i le_rfl (by omega)) fun ch => ?_
    exact all_op trivial fun _ => ih fun j hj hlt => h j (by omega) (by omega)

theorem sysDebugWrite_inWindow {len : UInt64}
    (h : buf ≠ 0 → len ≤ 4096 → ∀ i < len.toNat, InUserWindow (buf + UInt64.ofNat i)) :
    (sysDebugWrite buf len).All MemOp.InWindow := by
  unfold sysDebugWrite
  split
  · trivial
  · next hnull =>
    split
    · trivial
    · next hcap =>
      rw [gt_iff_lt, UInt64.not_lt] at hcap
      refine all_bind (debugWriteLoop_inWindow fun j _ hj => ?_) fun _ => all_pure _
      -- A null buffer gets here with no bytes only.
      have hbuf : buf ≠ 0 := fun hz => hnull ⟨hz, by rw [gt_iff_lt, UInt64.lt_iff_toNat_lt]; simp; omega⟩
      exact h hbuf hcap j (by omega)

/-! ### Every syscall -/

/-- The handlers other than `sys_debug_write` stay in the window. -/
theorem syscallTable_inWindow {num : UInt64} {a : Fin 6 → UInt64} {handler : MemM ℤ}
    (hnum : num ≠ nxSysDebugWrite) (h : syscallTable num a = some handler) :
    handler.All MemOp.InWindow := by
  have hone : num.toNat ≠ 1 := fun h => hnum (UInt64.toNat_inj.mp h)
  unfold syscallTable at h
  dsimp only at h
  split at h
  all_goals first
    | exact absurd ‹num.toNat = 1› hone
    | (cases h; exact checked_inWindow _)
    | (cases h; exact sysMmap_inWindow _ _ _ _)
    | (cases h; exact all_pure _)
    | cases h

/-- Surroundings in which memory is zero, no handle is known and every kernel function
succeeds. -/
def quietEnv (_ : ℕ) : (o : MemOp) → o.Res
  | .load _ => (0 : UInt8)
  | .store _ _ => ()
  | .ask (.entry _) => .error .enoent
  | .ask (.call _) => ({} : Reply)

/-- In these the dispatcher gets to the debug write. -/
theorem dispatch_debugWrite (a : Fin 6 → UInt64) :
    (nxSyscallDispatch nxSysDebugWrite a).trace quietEnv 0 =
      .ask (.call { fn := .nxHookDispatch, args := [nxSysDebugWrite] }) ::
        (sysDebugWrite (a 0) (a 1)).trace quietEnv 1 := rfl

/-- **A syscall touches nothing outside the user window, whatever the memory holds and the
kernel answers, exactly if it is no `debug_write` that gets to a byte outside.** -/
theorem user_access_in_window_iff (num : UInt64) (a : Fin 6 → UInt64) :
    (∀ env, ∀ o ∈ (nxSyscallDispatch num a).trace env 0, o.InWindow) ↔
      (num = nxSysDebugWrite → a 0 ≠ 0 → a 1 ≤ 4096 → ∀ i < (a 1).toNat,
        InUserWindow (a 0 + UInt64.ofNat i)) := by
  constructor
  · rintro h rfl hbuf hlen i hi
    have hload := sysDebugWrite_loads quietEnv hbuf hlen 1 i hi
    exact h quietEnv (.load (a 0 + UInt64.ofNat i))
      (by rw [dispatch_debugWrite]; exact List.mem_cons_of_mem _ hload)
  · intro h env
    refine Prog.All.trace (all_op trivial fun hook => ?_) env 0
    split
    · exact all_pure _
    · cases htab : syscallTable num a with
      | none => exact all_pure _
      | some handler =>
        by_cases hnum : num = nxSysDebugWrite
        · subst hnum
          cases htab
          exact sysDebugWrite_inWindow (h rfl)
        · exact syscallTable_inWindow hnum htab

/-- **A `debug_write` of a byte of the kernel loads it.** -/
theorem debug_write_reads_kernel :
    MemOp.load 0x40080000 ∈ (nxSyscallDispatch nxSysDebugWrite ![0x40080000, 1, 0, 0, 0, 0]).trace
      quietEnv 0 ∧ ¬ InUserWindow 0x40080000 := by
  refine ⟨?_, by decide⟩
  rw [dispatch_debugWrite]
  exact List.mem_cons_of_mem _ (sysDebugWrite_loads quietEnv (by decide) (by decide) 1 0 (by decide))

end Nonux.Syscall.UserAccess
