import Nonux.Components.VfsSimple

/-!
# The syscalls that write handle tables (`framework/syscall.c`, `framework/process.c`)

Channels, open files and directory cursors are reached through handle entries, and
the functions here are the ones that make, copy and drop such entries. The objects
themselves keep counts of their own (`Objects`), which every function moves by hand.

## The model

A syscall that works on its caller's table alone is a function of that table and of
the objects; it returns both and what the caller gets to see (`Ret`). `sys_fork` and
the life of processes work on the whole state (`Kernel`). Allocations that can fail
take the outcome as an argument, user memory is read through the `UserMem` given, and
calls into the vfs are answered by the component itself, which is fixed.

`KOp` is one such step, by one process, and `kstep` takes it.
-/

namespace Nonux.Syscall

open Nonux.Components Nonux.Framework Nonux.Lib Function

/-! ### The objects behind handles -/

/-- `struct nx_dir_cursor`. -/
structure DirCursor where
  cookie : UInt32
  path : Path
  deriving DecidableEq, Repr

/-- What handle entries refer to. -/
structure Objects where
  chans : Channels := {}
  cursors : Heap DirCursor := {}
  vfs : Vfs := {}

/-- What a syscall gives its caller: the return value, and the handles it has put into
the caller's hands by it or through user memory. -/
structure Ret where
  rc : ℤ
  handles : List Handle := []
  deriving DecidableEq, Repr

/-- A return with an error code. -/
def Ret.err (e : Err) : Ret := { rc := e.code }

/-- `nx_vfs_close`. Only the vfs slot is bound to a component that is modelled. -/
def nxVfsClose (o : Objects) (slot : KSlot) (id : UInt32) : Objects :=
  if slot = .vfs then { o with vfs := vfsSimpleClose o.vfs id } else o

/-- `nx_vfs_retain`. -/
def nxVfsRetain (o : Objects) (slot : KSlot) (id : UInt32) : Objects :=
  if slot = .vfs then { o with vfs := vfsSimpleRetain o.vfs id } else o

/-- The close by type that `sys_handle_close` and `sys_dup3` make of an entry's object: a
channel endpoint loses a reference, a vfs id loses one unless it is the console's, and
a directory cursor is freed. -/
def closeObject (o : Objects) (e : Entry) : Objects :=
  match e.type, e.object with
  | .channel, .ptr (.endpoint r) => { o with chans := nxChannelEndpointClose o.chans r }
  | .resource, .id n =>
    match e.target with
    | some slot => if slot = .charDeviceSerial then o else nxVfsClose o slot n
    | none => o
  | .dir, .ptr (.cursor d) => { o with cursors := o.cursors.free d }
  | _, _ => o

/-- The retain by type that `sys_dup3`, `sys_fcntl` and `sys_fork` make of the object of an
entry they copy. There is none for a directory cursor. -/
def retainObject (o : Objects) (e : Entry) : Objects :=
  match e.type, e.object with
  | .channel, .ptr (.endpoint r) => { o with chans := nxChannelEndpointRetain o.chans r }
  | .resource, .id n =>
    match e.target with
    | some slot => if slot = .charDeviceSerial ∨ n = 0 then o else nxVfsRetain o slot n
    | none => o
  | _, _ => o

/-- `nx_handle_close` where its result is ignored. -/
def handleCloseIgnored (t : Table) (h : Handle) : Table :=
  match nxHandleClose t h with
  | .ok t' => t'
  | .error _ => t

/-! ### Closing -/

/-- The handle `sys_handle_close` works on: 0 stands for the entry 2, under the generation
it has. -/
def routeStdin (t : Table) (h : Handle) : Except Err Handle :=
  if h = 0 then
    if (t.entries 2).type = .invalid then .error .enoent
      else .ok (encodeHandle (t.entries 2).generation 2)
  else .ok h

/-- `sys_handle_close`. -/
def sysHandleClose (t : Table) (o : Objects) (h : Handle) : Table × Objects × Ret :=
  match routeStdin t h with
  | .error e => (t, o, .err e)
  | .ok h =>
    let o := match resolve t h with
      | .ok i => closeObject o (t.entries i)
      | .error _ => o
    match nxHandleClose t h with
    | .ok t => (t, o, { rc := 0 })
    | .error e => (t, o, .err e)

/-! ### Channels and pipes -/

/-- The body of `sys_channel_create` and `sys_pipe`: a channel, an entry for each end, and
the copy of the two handles to user memory, with everything undone when a step fails. -/
def createPair (t : Table) (o : Objects) (rights0 rights1 : UInt32) (copyOut : Except Err Unit)
    (calloc : Bool) : Table × Objects × Ret :=
  match nxChannelCreate o.chans calloc with
  | .error e => (t, o, .err e)
  | .ok (chans, c) =>
    let made : Objects := { o with chans }
    -- Both endpoints closed again, after a failure.
    let undone : Objects :=
      { o with chans := nxChannelEndpointClose (nxChannelEndpointClose chans (c, 0)) (c, 1) }
    match nxHandleAlloc t .channel rights0 (.ptr (.endpoint (c, 0))) with
    | .error e => (t, undone, .err e)
    | .ok (t, h0) =>
      match nxHandleAlloc t .channel rights1 (.ptr (.endpoint (c, 1))) with
      | .error e => (handleCloseIgnored t h0, undone, .err e)
      | .ok (t, h1) =>
        match copyOut with
        | .error e => (handleCloseIgnored (handleCloseIgnored t h0) h1, undone, .err e)
        | .ok () => (t, made, { rc := 0, handles := [h0, h1] })

/-- The copies of the two handles that `sys_channel_create` makes. -/
def channelCreateCopyOut (userEnd0 userEnd1 : Addr) : Except Err Unit :=
  match userRangeCheck userEnd0 4 with
  | .error e => .error e
  | .ok () => userRangeCheck userEnd1 4

/-- `sys_channel_create`. -/
def sysChannelCreate (t : Table) (o : Objects) (userEnd0 userEnd1 : Addr) (calloc : Bool) :
    Table × Objects × Ret :=
  if userEnd0 = 0 ∨ userEnd1 = 0 then (t, o, .err .einval)
  else
    let rights := nxRightRead ||| nxRightWrite ||| nxRightTransfer
    createPair t o rights rights (channelCreateCopyOut userEnd0 userEnd1) calloc

/-- `sys_pipe`. -/
def sysPipe (t : Table) (o : Objects) (userFds : Addr) (calloc : Bool) : Table × Objects × Ret :=
  if userFds = 0 then (t, o, .err .einval)
  else createPair t o nxRightRead nxRightWrite (userRangeCheck userFds 8) calloc

/-! ### Files and directories -/

/-- The rights of a file handle. -/
def openRights (flags : UInt32) : UInt32 :=
  let rights := (if flags &&& nxFsOpenRead ≠ 0 then nxRightRead else 0) |||
    (if flags &&& nxFsOpenWrite ≠ 0 then nxRightWrite else 0)
  if rights ≠ 0 then rights ||| nxRightSeek else rights

/-- `sys_open` of a directory. `malloc` says whether the cursor can be allocated. -/
def openDir (t : Table) (o : Objects) (kpath : Path) (malloc : Bool) : Table × Objects × Ret :=
  if malloc = false then (t, o, .err .enomem)
  else
    let d := o.cursors.next
    let cursors := o.cursors.alloc { cookie := 0, path := kpath.take (nxPathMax - 1) }
    match nxHandleAllocWithSlot t .dir nxRightRead (.ptr (.cursor d)) (some .vfs) with
    | .error e => (t, { o with cursors := cursors.free d }, .err e)
    | .ok (t, h) => (t, { o with cursors }, { rc := h.toNat, handles := [h] })

/-- `sys_open` of anything else. -/
def openFile (ps : Procs) (t : Table) (o : Objects) (kpath : Path) (flags : UInt32) :
    Table × Objects × Ret :=
  let r := vfsSimpleOpen o.vfs ps kpath flags
  let o := { o with vfs := r.1 }
  if r.2 = 0 then (t, o, .err .enoent)
  else
    match nxHandleAllocResource t (openRights flags) r.2 (some .vfs) with
    | .error e => (t, nxVfsClose o .vfs r.2, .err e)
    | .ok (t, h) => (t, o, { rc := h.toNat, handles := [h] })

/-- `sys_open`, by a process with working directory `cwd`. -/
def sysOpen (ps : Procs) (cwd : Path) (t : Table) (o : Objects) (mem : UserMem) (userPath : Addr)
    (flags : UInt32) (malloc : Bool) : Table × Objects × Ret :=
  match copyPathFromUser mem nxPathMax userPath with
  | .error e => (t, o, .err e)
  | .ok kpath =>
    let kpath := pathMakeAbsolute cwd kpath
    match vfsSimpleStat o.vfs ps kpath with
    | .ok st => if st.kind = .dir then openDir t o kpath malloc else openFile ps t o kpath flags
    | .error _ => openFile ps t o kpath flags

/-- The loop of `sys_getdents64`: the cookie it ends with, and the bytes packed so far, or
`none` when the listing failed. A record that does not fit is given back by stepping
the cookie down. -/
def getdentsLoop (v : Vfs) (ps : Procs) (path : Path) (cap : ℕ) : ℕ → UInt32 → ℕ → UInt32 × Option ℕ
  | 0, cookie, outOff => (cookie, some outOff)
  | fuel + 1, cookie, outOff =>
    match vfsSimpleReaddir v ps path cookie with
    | .error .enoent => (cookie, some outOff)
    | .error _ => (cookie, none)
    | .ok (cookie, name) =>
      if name = [] then getdentsLoop v ps path cap fuel cookie outOff
      else
        let reclen := (19 + name.length + 1 + 7) / 8 * 8
        if cap < outOff + reclen then (cookie - 1, some outOff)
        else getdentsLoop v ps path cap fuel cookie (outOff + reclen)

/-- `sys_getdents64`, with the Linux error numbers it returns. A record takes 24 bytes at
least and the staging buffer has 4096, so that the loop ends within 4096 turns.
`malloc` says whether that buffer can be allocated. -/
def sysGetdents64 (ps : Procs) (t : Table) (o : Objects) (h : Handle) (userBuf : Addr) (cap : UInt64)
    (malloc : Bool) : Table × Objects × Ret :=
  if userBuf = 0 ∨ cap = 0 then (t, o, { rc := -22 })
  else
    match nxHandleLookup t h with
    | .ok (.dir, _, .ptr (.cursor d)) =>
      if malloc = false then (t, o, { rc := -22 })
      else
        match o.cursors.get? d with
        | none => (t, o, { rc := -9 })
        | some cur =>
          let r := getdentsLoop o.vfs ps cur.val.path (min cap.toNat 4096) 4096 cur.val.cookie 0
          let o := { o with cursors := o.cursors.modify d fun c => { c with cookie := r.1 } }
          match r.2 with
          | none => (t, o, { rc := -22 })
          | some outOff =>
            if 0 < outOff ∧ userRangeCheck userBuf (UInt64.ofNat outOff) ≠ .ok () then
              (t, o, { rc := -22 })
            else (t, o, { rc := outOff })
    | _ => (t, o, { rc := -9 })

/-! ### Copying -/

/-- The entry and the generation `sys_dup3` installs at: those of `newfd`, and for 0 the
entry 2 under generation 0. -/
def dup3Target (newfd : Handle) : Option (EntryIdx × UInt32) :=
  if newfd = 0 then some (2, 0) else (decodeIndex newfd).map fun i => (i, decodeGeneration newfd)

/-- `sys_dup3`. What the entry held before is closed first, and then the source retained. -/
def sysDup3 (t : Table) (o : Objects) (oldfd newfd : Handle) : Table × Objects × Ret :=
  if oldfd = newfd then (t, o, { rc := newfd.toNat, handles := [newfd] })
  else
    match resolve t oldfd with
    | .error e => (t, o, .err e)
    | .ok s =>
      match dup3Target newfd with
      | none => (t, o, .err .einval)
      | some (i, gen) =>
        let src := t.entries s
        let dst := t.entries i
        let o := if dst.Live then closeObject o dst else o
        let count := if dst.Live then t.count else t.count + 1
        ({ entries := update t.entries i { src with generation := gen }, count }, retainObject o src,
          { rc := newfd.toNat, handles := [newfd] })

/-- The entry at which the scan of `F_DUPFD` stops. It starts at the index of the handle
`arg`, or at the bottom if there is none. -/
def fcntlFree (t : Table) (arg : ℤ) : Option EntryIdx :=
  let minIdx := if arg ≤ 0 then 0 else (arg - 1).toNat
  let minIdx := if 64 ≤ minIdx then 0 else minIdx
  (List.finRange 64).find? fun i => decide (minIdx ≤ i ∧ (t.entries i).type = .invalid)

/-- `sys_fcntl` with `F_DUPFD` or `F_DUPFD_CLOEXEC`. The copy gets generation 0. -/
def fcntlDupfd (t : Table) (o : Objects) (fd : Handle) (arg : ℤ) : Table × Objects × Ret :=
  match resolve t fd with
  | .error _ => (t, o, { rc := -9 })
  | .ok s =>
    match fcntlFree t arg with
    | none => (t, o, { rc := -24 })
    | some i =>
      let src := t.entries s
      (t.occupy i { src with generation := 0 }, retainObject o src,
        { rc := i + 1, handles := [UInt32.ofNat (i + 1)] })

/-- `sys_fcntl`, with the Linux error numbers it returns. -/
def sysFcntl (t : Table) (o : Objects) (fd : Handle) (cmd arg : ℤ) : Table × Objects × Ret :=
  if cmd = 1 ∨ cmd = 2 ∨ cmd = 3 ∨ cmd = 4 then (t, o, { rc := 0 })
  else if cmd = 0 ∨ cmd = 1030 then fcntlDupfd t o fd arg
  else (t, o, { rc := -38 })

/-! ### The whole state -/

/-- The processes and the objects their handles refer to. -/
structure Kernel where
  procs : Procs := bootProcs
  objs : Objects := {}

/-- The kernel at boot, with the files the root filesystem is seeded with. -/
def bootKernel (files : Fin 32 → Option RamfsFile) : Kernel :=
  { objs := { vfs := { ramfs := { files } } } }

/-- The entries a fork copies: the channels, and the files open in the vfs. -/
def Inherited (e : Entry) : Prop :=
  e.type = .channel ∨
    e.type = .resource ∧ e.target ≠ none ∧ e.target ≠ some .charDeviceSerial ∧ e.object ≠ .id 0

instance (e : Entry) : Decidable (Inherited e) := inferInstanceAs (Decidable (_ ∨ _))

/-- The loop of `sys_fork` over the parent's table. A copy keeps its index and its
generation, and replaces what the child had there. -/
def inheritHandles (parent child : Table) (o : Objects) : Table × Objects :=
  forLoop 64 (fun (r : Table × Objects) i =>
    let src := parent.entries i
    if src.type = .invalid then r
    else if Inherited src then
      let count := if (r.1.entries i).type = .invalid then r.1.count + 1 else r.1.count
      ({ entries := update r.1.entries i src, count }, retainObject r.2 src)
    else r) (child, o)

/-- `sys_fork`. `malloc` and `mmu` say whether the child process can be allocated, and
`task` whether its task can: if not, the child is destroyed again, handles and all. -/
def sysFork (k : Kernel) (pk : ProcKey) (malloc mmu task : Bool) : Kernel × Ret :=
  match k.procs.slot pk with
  | none => (k, .err .einval)
  | some parent =>
    match nxProcessFork k.procs parent malloc mmu with
    | (ps, none) => ({ k with procs := ps }, .err .enomem)
    | (ps, some ck) =>
      match ps.slot ck with
      | none => ({ k with procs := ps }, .err .enomem)
      | some child =>
        let r := inheritHandles parent.handles child.handles k.objs
        let ps := ps.set ck (some { child with handles := r.1 })
        if task then ({ procs := ps, objs := r.2 }, { rc := child.pid.toNat })
        else ({ procs := nxProcessDestroy ps ck, objs := r.2 }, .err .enomem)

/-- The loop of `nx_process_exit` over the table. Of the objects only channel endpoints are
closed. The entry's handle is put together again for `nx_handle_close`, whose result is
ignored. -/
def exitHandles (t : Table) (o : Objects) : Table × Objects :=
  forLoop 64 (fun (r : Table × Objects) i =>
    let e := r.1.entries i
    if e.type = .invalid then r
    else
      let o := if e.type = .channel then closeObject r.2 e else r.2
      (handleCloseIgnored r.1 (encodeHandle e.generation i), o)) (t, o)

/-- `nx_process_exit`, up to where the task parks. -/
def nxProcessExit (k : Kernel) (pk : ProcKey) (code : ℤ) : Kernel :=
  match k.procs.slot pk with
  | none => k
  | some p =>
    let r := exitHandles p.handles k.objs
    { procs := k.procs.set pk (some { p with state := .exited, exitCode := code, handles := r.1 }),
      objs := r.2 }

/-! ### Steps -/

/-- A syscall on the caller's own table. -/
inductive LocalCall where
  | channelCreate (userEnd0 userEnd1 : Addr) (calloc : Bool)
  | pipe (userFds : Addr) (calloc : Bool)
  | handleClose (h : Handle)
  | open (mem : UserMem) (userPath : Addr) (flags : UInt32) (malloc : Bool)
  | getdents64 (h : Handle) (userBuf : Addr) (cap : UInt64) (malloc : Bool)
  | dup3 (oldfd newfd : Handle)
  | fcntl (fd : Handle) (cmd arg : ℤ)

/-- What the call does to the caller's table and to the objects. -/
def LocalCall.run (ps : Procs) (p : Process) (o : Objects) : LocalCall → Table × Objects × Ret
  | .channelCreate e0 e1 calloc => sysChannelCreate p.handles o e0 e1 calloc
  | .pipe fds calloc => sysPipe p.handles o fds calloc
  | .handleClose h => sysHandleClose p.handles o h
  | .open mem path flags malloc => sysOpen ps p.cwd p.handles o mem path flags malloc
  | .getdents64 h buf cap malloc => sysGetdents64 ps p.handles o h buf cap malloc
  | .dup3 oldfd newfd => sysDup3 p.handles o oldfd newfd
  | .fcntl fd cmd arg => sysFcntl p.handles o fd cmd arg

/-- One step of the kernel, at the granularity of a syscall. -/
inductive KOp where
  | call (pk : ProcKey) (c : LocalCall)
  | fork (pk : ProcKey) (malloc mmu task : Bool)
  | exit (pk : ProcKey) (code : ℤ)
  | destroy (pk : ProcKey)
  | create (name : Path) (malloc mmu : Bool)

/-- The process can make a syscall: it exists and has not exited. -/
def Kernel.running (k : Kernel) (pk : ProcKey) : Option Process :=
  (k.procs.slot pk).filter fun p => p.state = .active

/-- Take a step. One by a process that cannot make a syscall does nothing. -/
def kstep (k : Kernel) : KOp → Kernel × Ret
  | .call pk c =>
    match k.running pk with
    | none => (k, { rc := 0 })
    | some p =>
      let r := c.run k.procs p k.objs
      ({ procs := k.procs.set pk (some { p with handles := r.1 }), objs := r.2.1 }, r.2.2)
  | .fork pk malloc mmu task =>
    match k.running pk with
    | none => (k, { rc := 0 })
    | some _ => sysFork k pk malloc mmu task
  | .exit pk code =>
    match k.running pk with
    | none => (k, { rc := 0 })
    | some _ => (nxProcessExit k pk code, { rc := 0 })
  | .destroy pk => ({ k with procs := nxProcessDestroy k.procs pk }, { rc := 0 })
  | .create name malloc mmu => ({ k with procs := (nxProcessCreate k.procs name malloc mmu).1 },
        { rc := 0 })

/-- The state after a step. -/
def knext (k : Kernel) (op : KOp) : Kernel := (kstep k op).1

/-- **What a fork does**: nothing but to use up a pid, or it puts a child with what it
inherits in a free place, and takes it away again if there is no task for it. -/
theorem sysFork_cases {k : Kernel} {pk : ProcKey} {p : Process} (hp : k.procs.slot pk = some p)
    (malloc mmu task : Bool) :
    ((nxProcessFork k.procs p malloc mmu).2 = none ∧
      (sysFork k pk malloc mmu task).1.procs.slot = k.procs.slot ∧
      (sysFork k pk malloc mmu task).1.objs = k.objs) ∨
    ∃ i child, (nxProcessFork k.procs p malloc mmu).2 = some (some i) ∧ k.procs.slot (some i) = none ∧
      child.handles = (inheritHandles p.handles consoleTable k.objs).1 ∧
      (sysFork k pk malloc mmu task).1.procs.slot =
        update k.procs.slot (some i) (if task then some child else none) ∧
      (sysFork k pk malloc mmu task).1.objs = (inheritHandles p.handles consoleTable k.objs).2 := by
  rcases nxProcessFork_eq k.procs p malloc mmu with ⟨n, -, heq⟩ | ⟨i, hi, -, heq⟩
  · exact .inl (by simp [sysFork, hp, heq])
  · refine .inr ⟨i,
      { pid := k.procs.pidNext, name := p.name.take 15, parentPid := p.pid, cwd := p.cwd
        handles := (inheritHandles p.handles consoleTable k.objs).1 }, by rw [heq], hi, rfl, ?_, ?_⟩ <;>
      cases task <;> simp [sysFork, hp, heq, Procs.set, nxProcessDestroy]

variable {k : Kernel} {pk : ProcKey} {p : Process}

theorem running_slot (h : k.running pk = some p) : k.procs.slot pk = some p := by
  simp only [Kernel.running, Option.filter_eq_some_iff] at h
  exact h.1

/-- What a step can leave of the processes: at most one is stored. -/
inductive SlotsAfter (k : Kernel) : KOp → (ProcKey → Option Process) → Prop
  | same {op : KOp} : SlotsAfter k op k.procs.slot
  | call {pk : ProcKey} {p : Process} {c : LocalCall} (hp : k.running pk = some p) :
      SlotsAfter k (.call pk c)
      (update k.procs.slot pk (some { p with handles := (c.run k.procs p k.objs).1 }))
  | fork {pk : ProcKey} {p child : Process} {i : Fin 128} {malloc mmu : Bool}
      (hp : k.running pk = some p) (hck : (nxProcessFork k.procs p malloc mmu).2 = some (some i))
      (hfree : k.procs.slot (some i) = none)
      (hchild : child.handles = (inheritHandles p.handles consoleTable k.objs).1) :
      SlotsAfter k (.fork pk malloc mmu true) (update k.procs.slot (some i) (some child))
  | exit {pk : ProcKey} {p : Process} {code : ℤ} (hp : k.running pk = some p) :
      SlotsAfter k (.exit pk code) (update k.procs.slot pk
        (some { p with
          state := .exited, exitCode := code, handles := (exitHandles p.handles k.objs).1 }))
  | reset {p : Process} : SlotsAfter k (.destroy none) (update k.procs.slot none
      (some { p with handles := nxHandleTableInit p.handles, state := .active, exitCode := 0 }))
  | destroy {i : Fin 128} : SlotsAfter k (.destroy (some i)) (update k.procs.slot (some i) none)
  | create {p : Process} {i : Fin 128} {name : Path} {malloc mmu : Bool}
      (hfree : k.procs.slot (some i) = none) (hp : p.handles = consoleTable) :
      SlotsAfter k (.create name malloc mmu) (update k.procs.slot (some i) (some p))

/-- **All that a step does to the processes.** -/
theorem knext_slots (k : Kernel) (op : KOp) : SlotsAfter k op (knext k op).procs.slot := by
  unfold knext
  cases op with
  | call pk c =>
    simp only [kstep]
    cases hp : k.running pk with
    | none => exact .same
    | some p => exact .call hp
  | fork pk malloc mmu task =>
    simp only [kstep]
    cases hp : k.running pk with
    | none => exact .same
    | some p =>
      rcases sysFork_cases (running_slot hp) malloc mmu task with ⟨-, hslot, -⟩ | ⟨i, child, hck,
        hfree, hchild, hslot, -⟩
      · exact hslot ▸ .same
      · dsimp only
        cases task with
        | true => exact hslot ▸ .fork hp hck hfree hchild
        | false =>
          rw [if_neg (by simp), ← hfree, update_eq_self] at hslot
          exact hslot ▸ .same
  | exit pk code =>
    simp only [kstep]
    cases hp : k.running pk with
    | none => exact .same
    | some p =>
      simp only [nxProcessExit, running_slot hp]
      exact .exit hp
  | destroy pk =>
    simp only [kstep, nxProcessDestroy]
    cases pk with
    | none =>
      cases k.procs.slot none with
      | none => exact .same
      | some p => exact .reset
    | some i => exact .destroy
  | create name malloc mmu =>
    simp only [kstep]
    rcases nxProcessCreate_eq k.procs name malloc mmu with ⟨n, -, heq⟩ | ⟨i, hfree, -, heq⟩ <;> rw [heq]
    · exact .same
    · exact .create hfree rfl

end Nonux.Syscall
