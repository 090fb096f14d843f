import Nonux.Framework.ChannelRing
import Nonux.Components.Ramfs
import Nonux.Syscall.UserAccess

/-!
# Reading and writing through a handle

`Nonux.Syscall.UserAccess` has the handlers of `read`, `write` and their kin as programs that leave
open what the kernel functions answer. Here the answers come from the object that the handle names:
an end of a channel, an open file of one of the filesystems, or the console. A run then says what a
call does to the object, and what it returns.

`IoState` is the memory of the caller and the object. A read of an empty pipe sleeps, while others
do something to the channel; what they do each time is part of the state, and so is whether the read
is one that sleeps: `sys_read` does, in the kernel, and `sys_channel_recv` does not. The log has the
bytes stored in the memory of the caller and the times that it slept, in their order.

The blocking calls that lead to a filesystem or the console (`nx_vfs_read` and so on) are taken to
reach it and to come back.
-/

namespace Nonux.Syscall.Io

open Nonux.Framework Nonux.Components Nonux.Lib Nonux.Syscall.UserAccess
open Prog hiding pure

/-! ### Files and the console -/

/-- `RAMFS_FILE_CAP` -/
def ramfsFileCap : ℕ := 4 * 1024 * 1024

/-- A `struct ramfs_open`, with the file that it is an open of. -/
structure RamfsFd where
  flags : UInt32
  cursor : ℕ := 0
  size : ℕ := 0
  data : ℕ → UInt8 := fun _ => 0

/-- The bytes of an array from one index on. -/
def slice (data : ℕ → UInt8) (start n : ℕ) : List UInt8 := (List.range n).map fun i => data (start + i)

/-- `ramfs_op_read` -/
def ramfsOpRead (f : RamfsFd) (cap : ℕ) : RamfsFd × Except Err (List UInt8) :=
  if cap = 0 then (f, .ok [])
  else if f.flags &&& nxFsOpenRead = 0 then (f, .error .eperm)
  else
    let n := min (f.size - f.cursor) cap
    ({ f with cursor := f.cursor + n }, .ok (slice f.data f.cursor n))

/-- Write bytes over an array, from one index on. -/
def splice (data : ℕ → UInt8) (start : ℕ) (bytes : List UInt8) : ℕ → UInt8 := fun i =>
  if start ≤ i ∧ i < start + bytes.length then bytes.getD (i - start) 0 else data i

/-- `ramfs_op_write` -/
def ramfsOpWrite (f : RamfsFd) (buf : List UInt8) : RamfsFd × Except Err ℕ :=
  if buf = [] then (f, .ok 0)
  else if f.flags &&& nxFsOpenWrite = 0 then (f, .error .eperm)
  else
    let f := if f.flags &&& nxFsOpenAppend ≠ 0 then { f with cursor := f.size } else f
    let room := ramfsFileCap - f.cursor
    if room = 0 then (f, .error .enomem)
    else
      let n := min buf.length room
      ({ f with
          data := splice f.data f.cursor (buf.take n)
          cursor := f.cursor + n
          size := max f.size (f.cursor + n) }, .ok n)

/-- A `struct procfs_open`: the text was made when it was opened. -/
structure ProcfsFd where
  cursor : ℕ := 0
  buf : List UInt8 := []

/-- `procfs_op_read` -/
def procfsOpRead (f : ProcfsFd) (cap : ℕ) : ProcfsFd × Except Err (List UInt8) :=
  if cap = 0 then (f, .ok [])
  else
    let n := min (f.buf.length - f.cursor) cap
    ({ f with cursor := f.cursor + n }, .ok ((f.buf.drop f.cursor).take n))

/-- The input of the console: the bytes received, and `g_eof_pending`. -/
structure ConsoleIn where
  rx : List UInt8 := []
  eofPending : Bool := false

/-- `nx_console_read_nonblocking` -/
def nxConsoleReadNonblocking (c : ConsoleIn) (cap : ℕ) : ConsoleIn × Except Err (List UInt8) :=
  if cap = 0 then (c, .ok [])
  else if c.rx ≠ [] then ({ c with rx := c.rx.drop cap }, .ok (c.rx.take cap))
  else if c.eofPending then ({ c with eofPending := false }, .ok [])
  else (c, .error .eagain)

/-! ### The object behind a handle -/

/-- What a handle may name. -/
inductive IoObject where
  | channel (ch : RingChannel) (s : Fin 2)
  | ramfs (f : RamfsFd)
  | procfs (f : ProcfsFd)
  /-- A file whose open the filesystem does not know. -/
  | stale
  | console (c : ConsoleIn)
  /-- A directory, or what else cannot be read and written. -/
  | dir

namespace IoObject

/-- The type in the entry of the handle. -/
def type : IoObject → HandleType
  | .channel _ _ => .channel
  | .ramfs _ | .procfs _ | .stale | .console _ => .resource
  | .dir => .dir

/-- The target of the entry is the console. -/
def isConsole : IoObject → Bool
  | .console _ => true
  | _ => false

end IoObject

/-- What happens in the course of a call. -/
inductive IoEvent where
  /-- A byte was stored in the memory of the caller. -/
  | stored
  /-- The caller slept. -/
  | slept
  deriving DecidableEq, Repr

/-- The state of a call. -/
structure IoState where
  mem : Addr → UInt8 := fun _ => 0
  /-- The rights of the handle, or why it does not resolve. -/
  rights : Except Err UInt32
  obj : IoObject
  /-- A read of an empty pipe sleeps. -/
  sleeps : Bool := false
  /-- What others do to the channel, each time the caller sleeps. -/
  others : List (RingChannel → RingChannel) := []
  log : List IoEvent := []

namespace IoState

/-- The entry of the handle. -/
def view (s : IoState) : Except Err EntryView :=
  s.rights.map fun rights => { type := s.obj.type, rights := rights, console := s.obj.isConsole }

/-- The loop of `sys_read` on a channel: as long as there is nothing to receive, the caller sleeps
and others do something. It returns the channel at the end of it, and what others have still to
do. -/
def await (s : Fin 2) (cap : ℕ) : RingChannel → List (RingChannel → RingChannel) →
    RingChannel × List (RingChannel → RingChannel) × List IoEvent
  | ch, [] => (ch, [], if (ch.nxChannelRecv (some s) (some cap)).2 = .error .eagain then
        [.slept] else [])
  | ch, act :: others =>
    if (ch.nxChannelRecv (some s) (some cap)).2 = .error .eagain then
      ((await s cap (act ch) others).1, (await s cap (act ch) others).2.1,
        .slept :: (await s cap (act ch) others).2.2)
    else (ch, act :: others, [])

/-- The state when the caller has slept as long as it had to. -/
def awake (s : IoState) (cap : ℕ) : IoState :=
  match s.sleeps, s.obj with
  | true, .channel ch side =>
    { s with
      obj := .channel (await side cap ch s.others).1 side
      others := (await side cap ch s.others).2.1
      log := s.log ++ (await side cap ch s.others).2.2 }
  | _, _ => s

/-- The answer with the bytes that were read. -/
def readReply : Except Err (List UInt8) → Reply
  | .ok bytes => { rc := bytes.length, bytes := bytes }
  | .error e => { rc := e.code }

/-- The answer with the number of bytes that were written. -/
def writeReply : Except Err ℕ → Reply
  | .ok n => { rc := n }
  | .error e => { rc := e.code }

/-- Read from the object, when the caller is awake. -/
def readObj (obj : IoObject) (cap : ℕ) : IoObject × Except Err (List UInt8) :=
  match obj with
  | .channel ch side =>
    (.channel (ch.nxChannelRecv (some side) (some cap)).1 side,
      (ch.nxChannelRecv (some side) (some cap)).2)
  | .ramfs f => (.ramfs (ramfsOpRead f cap).1, (ramfsOpRead f cap).2)
  | .procfs f => (.procfs (procfsOpRead f cap).1, (procfsOpRead f cap).2)
  | .console c => (.console (nxConsoleReadNonblocking c cap).1, (nxConsoleReadNonblocking c cap).2)
  | .stale | .dir => (obj, .error .einval)

/-- Write to the object. -/
def writeObj (obj : IoObject) (bytes : List UInt8) : IoObject × Except Err ℕ :=
  match obj with
  | .channel ch side =>
    (.channel (ch.nxChannelSend (some side) (some bytes)).1 side,
      (ch.nxChannelSend (some side) (some bytes)).2)
  | .ramfs f => (.ramfs (ramfsOpWrite f bytes).1, (ramfsOpWrite f bytes).2)
  -- `procfs_op_write`: it is read-only.
  | .procfs _ => (obj, .error .eperm)
  | .console _ => (obj, .ok bytes.length)
  | .stale | .dir => (obj, .error .einval)

/-- What the kernel functions do to the object. -/
def call (s : IoState) (c : KernelCall) : IoState × Reply :=
  let cap := (c.args.getD 1 0).toNat
  match c.fn with
  | .nxChannelRecv | .nxVfsRead | .nxCharDeviceRead =>
    let r := readObj (s.awake cap).obj cap
    ({ s.awake cap with obj := r.1 }, readReply r.2)
  | .nxChannelSend | .nxVfsWrite | .nxCharDeviceWrite =>
    let r := writeObj s.obj c.bytes
    ({ s with obj := r.1 }, writeReply r.2)
  | _ => (s, {})

/-- A load, a store, or a question to the kernel. -/
def memStep (s : IoState) : (o : MemOp) → IoState × o.Res
  | .load a => (s, s.mem a)
  | .store a b => ({ s with mem := Function.update s.mem a b, log := s.log ++ [.stored] }, ())
  | .ask (.entry _) => (s, s.view)
  | .ask (.call c) => s.call c

/-- An operation of a handler. -/
def step (s : IoState) (o : UserOp) : IoState × o.Res := Prog.run memStep o.exec s

/-! ### Copies -/

/-- The bytes of the caller's memory from an address on. -/
def bytesAt (s : IoState) (p : Addr) (n : ℕ) : List UInt8 :=
  (List.range n).map fun i => s.mem (p + UInt64.ofNat i)

/-- The state after bytes were stored in the caller's memory. -/
def store (s : IoState) (p : Addr) (src : List UInt8) (n : ℕ) : IoState :=
  (Prog.run memStep (stores p (fun i => src.getD i 0) n 0) s).1

theorem run_loads (s : IoState) (a : Addr) (n i : ℕ) :
    Prog.run memStep (loads a n i) s =
      (s, (List.range n).map fun k => s.mem (a + UInt64.ofNat (i + k))) := by
  induction n generalizing i with
  | zero => rfl
  | succ n ih =>
    change Prog.run memStep
      (loads a n (i + 1) >>= fun rest => pure (s.mem (a + UInt64.ofNat i) :: rest)) s = _
    rw [run_bind, ih, run_pure, List.range_succ_eq_map, List.map_cons, List.map_map]
    refine congrArg (fun l => (s, s.mem (a + UInt64.ofNat i) :: l)) (List.map_congr_left fun k _ => ?_)
    rw [Function.comp, Nat.succ_eq_add_one, Nat.add_assoc, Nat.add_comm 1]

/-- Stores change the memory and are logged, and nothing else. -/
theorem run_stores (s : IoState) (a : Addr) (src : ℕ → UInt8) (n i : ℕ) :
    ∃ mem, (Prog.run memStep (stores a src n i) s).1 =
      { s with mem := mem, log := s.log ++ List.replicate n .stored } := by
  induction n generalizing s i with
  | zero => exact ⟨s.mem, by simp [stores]⟩
  | succ n ih =>
    change ∃ mem, (Prog.run memStep (stores a src n (i + 1))
      (memStep s (.store (a + UInt64.ofNat i) (src i))).1).1 = _
    obtain ⟨mem, hmem⟩ := ih (memStep s (.store (a + UInt64.ofNat i) (src i))).1 (i + 1)
    exact ⟨mem, by rw [hmem]; simp [memStep, List.replicate_succ]⟩

variable (s : IoState) (p : Addr) (src : List UInt8) (n : ℕ)

theorem store_eq :
    ∃ mem, s.store p src n = { s with mem := mem, log := s.log ++ List.replicate n .stored } :=
  run_stores s p _ n 0

@[simp] theorem store_obj : (s.store p src n).obj = s.obj := by
  obtain ⟨mem, h⟩ := s.store_eq p src n
  rw [h]

@[simp] theorem store_rights : (s.store p src n).rights = s.rights := by
  obtain ⟨mem, h⟩ := s.store_eq p src n
  rw [h]

@[simp] theorem store_sleeps : (s.store p src n).sleeps = s.sleeps := by
  obtain ⟨mem, h⟩ := s.store_eq p src n
  rw [h]

@[simp] theorem store_log : (s.store p src n).log = s.log ++ List.replicate n .stored := by
  obtain ⟨mem, h⟩ := s.store_eq p src n
  rw [h]

/-- `copy_from_user` -/
theorem run_copyFromUser (len : UInt64) :
    Prog.run step (copyFromUser p len) s =
      (s, (userRangeCheck p len).map fun _ => s.bytesAt p len.toNat) := by
  change step s (.copyFromUser p len) = _
  rw [step, UserOp.exec]
  cases userRangeCheck p len with
  | error e => rfl
  | ok u =>
    have h : Prog.run memStep
      (loads p len.toNat 0 >>= fun bytes => pure (Except.ok (ε := Err) bytes)) s =
        (s, .ok (s.bytesAt p len.toNat)) := by
      rw [run_bind, run_loads, run_pure]
      simp [bytesAt]
    exact h

/-- `copy_to_user` -/
theorem run_copyToUser (len : UInt64) :
    Prog.run step (copyToUser p src len) s =
      match userRangeCheck p len with
      | .error e => (s, .error e)
      | .ok () => (s.store p src len.toNat, .ok ()) := by
  change step s (.copyToUser p src len) = _
  rw [step, UserOp.exec]
  cases userRangeCheck p len with
  | error e => rfl
  | ok u =>
    have h : Prog.run memStep (stores p (fun i => src.getD i 0) len.toNat 0 >>= fun u => pure
      (Except.ok (ε := Err) u)) s =
        (s.store p src len.toNat, .ok ()) := by
      rw [run_bind, run_pure]
      rfl
    exact h

@[simp] theorem run_entry (h : Handle) : Prog.run step (entry h) s = (s, s.view) := rfl

@[simp] theorem run_kernel (fn : KernelFn) (args : List UInt64) (bytes : List UInt8) :
    Prog.run step (kernel fn args bytes) s = s.call { fn, args, bytes } := rfl

/-! ### Reading -/

/-- The capacity that a call reads with: `NX_CHANNEL_MSG_MAX` or `NX_FILE_IO_MAX` at most. -/
def readCap (cap : UInt64) : ℕ := (min cap ioMax).toNat

/-- The end of a read: what was read is copied out. At the end of the console's input nothing is. -/
def deliver (s : IoState) (buf : Addr) : Except Err (List UInt8) → IoState × ℤ
  | .error e => (s, e.code)
  | .ok bytes =>
    if s.obj.isConsole ∧ bytes = [] then (s, 0)
    else
      match userRangeCheck buf (UInt64.ofNat bytes.length) with
      | .error e => (s, e.code)
      | .ok () => (s.store buf bytes bytes.length, bytes.length)

/-- What reading comes to, once the handle is found to be good for it: the object is read, when the
caller is awake, and what was read is copied out. -/
def readInto (s : IoState) (buf : Addr) (cap : ℕ) : IoState × ℤ :=
  deliver { s.awake cap with obj := (readObj (s.awake cap).obj cap).1 } buf
    (readObj (s.awake cap).obj cap).2

theorem readCap_eq (cap : UInt64) : readCap cap = min cap.toNat nxChannelMsgMax := by
  have h : readCap cap = (if cap ≤ ioMax then cap else ioMax).toNat := rfl
  have hle : cap ≤ ioMax ↔ cap.toNat ≤ nxChannelMsgMax := UInt64.le_iff_toNat_le
  rw [h]
  split_ifs with hcap
  · exact (min_eq_left (hle.1 hcap)).symm
  · have hgt : nxChannelMsgMax ≤ cap.toNat := by
      rw [hle] at hcap
      omega
    exact (min_eq_right hgt).symm

variable {r : Except Err (List UInt8)}

theorem readReply_rc_neg : (readReply r).rc < 0 ↔ ∃ e, r = .error e := by
  cases r with
  | ok bytes => simp [readReply]
  | error e => simp [readReply, e.code_neg]

theorem run_copyOutReceived (buf : Addr) (bytes : List UInt8) :
    Prog.run step (copyOutReceived buf (readReply (.ok bytes))) s =
      match userRangeCheck buf (UInt64.ofNat bytes.length) with
      | .error e => (s, e.code)
      | .ok () => (s.store buf bytes (UInt64.ofNat bytes.length).toNat, (bytes.length : ℤ)) := by
  simp only [copyOutReceived, readReply, run_bind, run_copyToUser, asSize, Int.toNat_natCast]
  cases userRangeCheck buf (UInt64.ofNat bytes.length) <;> rfl

variable {bytes : List UInt8}

theorem length_nxChannelRecv_le {ch : RingChannel} {side : Fin 2} {cap : ℕ}
    (h : (ch.nxChannelRecv (some side) (some cap)).2 = .ok bytes) : bytes.length ≤ cap := by
  unfold RingChannel.nxChannelRecv at h
  dsimp only at h
  split_ifs at h with hcap hclosed hempty hpeer hbig
  · cases h
    exact Nat.zero_le _
  · cases h
    exact not_lt.1 hbig

/-- No more is read than was asked for. -/
theorem length_readObj_le {obj : IoObject} {cap : ℕ} (h : (readObj obj cap).2 = .ok bytes) :
    bytes.length ≤ cap := by
  cases obj with
  | channel ch side => exact length_nxChannelRecv_le h
  | ramfs f =>
    simp only [readObj, ramfsOpRead] at h
    split_ifs at h with hcap hflags <;> cases h <;> simp [slice]
  | procfs f =>
    simp only [readObj, procfsOpRead] at h
    split_ifs at h with hcap <;> cases h <;> simp
  | console c =>
    simp only [readObj, nxConsoleReadNonblocking] at h
    split_ifs at h with hcap hrx heof <;> cases h <;> simp
  | stale | dir => simp [readObj] at h

theorem toNat_ofNat_length (h : bytes.length ≤ nxChannelMsgMax) :
    (UInt64.ofNat bytes.length).toNat = bytes.length := by
  unfold nxChannelMsgMax at h
  rw [UInt64.toNat_ofNat', Nat.mod_eq_of_lt (by omega)]

/-- What was read from a file or a channel is copied out, if it is not an error. -/
theorem run_copyOut {s : IoState} (hcons : s.obj.isConsole = false) (buf : Addr)
    (hlen : ∀ bytes, r = .ok bytes → bytes.length ≤ nxChannelMsgMax) :
    Prog.run step (if (readReply r).rc < 0 then pure (readReply r).rc else copyOutReceived buf
      (readReply r)) s = s.deliver buf r := by
  cases r with
  | error e =>
    have hneg : (readReply (.error e)).rc < 0 := readReply_rc_neg.2 ⟨e, rfl⟩
    rw [if_pos hneg]
    rfl
  | ok bytes =>
    have hneg : ¬ (readReply (.ok bytes)).rc < 0 := by simp [readReply]
    rw [if_neg hneg, run_copyOutReceived, toNat_ofNat_length (hlen bytes rfl)]
    simp only [deliver, hcons, Bool.false_eq_true, false_and, ↓reduceIte]

/-- What was read from the console: at the end of the input nothing is copied out. -/
theorem run_copyOut_console {s : IoState} (hcons : s.obj.isConsole = true) (buf : Addr)
    (hlen : ∀ bytes, r = .ok bytes → bytes.length ≤ nxChannelMsgMax) :
    Prog.run step (if (readReply r).rc ≤ 0 then pure (readReply r).rc else copyOutReceived buf
      (readReply r)) s = s.deliver buf r := by
  cases r with
  | error e =>
    have hneg : (readReply (.error e)).rc ≤ 0 := (readReply_rc_neg.2 ⟨e, rfl⟩).le
    rw [if_pos hneg]
    rfl
  | ok bytes =>
    by_cases hnil : bytes = []
    · subst hnil
      simp [readReply, deliver, hcons]
    · have hneg : ¬ (readReply (.ok bytes)).rc ≤ 0 := by simpa [readReply] using hnil
      rw [if_neg hneg, run_copyOutReceived, toNat_ofNat_length (hlen bytes rfl)]
      simp only [deliver, hnil, and_false, ↓reduceIte]

/-- Sleeping and reading leave an object of its kind. -/
theorem isConsole_readObj (obj : IoObject) (cap : ℕ) :
    (readObj obj cap).1.isConsole = obj.isConsole := by
  cases obj <;> rfl

theorem isConsole_awake (cap : ℕ) : (s.awake cap).obj.isConsole = s.obj.isConsole := by
  unfold awake
  split
  · next hobj => rw [hobj]; rfl
  · rfl

theorem length_readObj_readCap {obj : IoObject} {cap : UInt64} (bytes : List UInt8)
    (h : (readObj obj (readCap cap)).2 = .ok bytes) : bytes.length ≤ nxChannelMsgMax :=
  (length_readObj_le h).trans (readCap_eq cap ▸ min_le_right _ _)

theorem run_sysRead (h : Handle) (buf : Addr) (cap : UInt64) :
    Prog.run step (sysRead h buf cap) s =
      if cap = 0 then (s, 0)
      else
        match s.rights with
        | .error _ => (s, Err.enoent.code)
        | .ok rights =>
          if rights &&& nxRightRead ≠ nxRightRead then (s, Err.eperm.code)
          else if s.obj.type = .dir then (s, Err.einval.code)
          else s.readInto buf (readCap cap) := by
  unfold sysRead
  by_cases hcap : cap = 0
  · simp [hcap]
  simp only [hcap, ↓reduceIte, run_bind, run_entry]
  cases hrights : s.rights with
  | error e => simp [view, hrights, Except.map]
  | ok rights =>
    simp only [view, hrights, Except.map]
    by_cases hread : rights &&& nxRightRead ≠ nxRightRead
    · simp [hread]
    simp only [hread, ↓reduceIte]
    have hkind : (readObj (s.awake (readCap cap)).obj (readCap cap)).1.isConsole = s.obj.isConsole :=
      (isConsole_readObj _ _).trans (isConsole_awake _ _)
    cases hobj : s.obj with
    | channel ch side | ramfs f | procfs f =>
      exact run_copyOut (hkind.trans (by rw [hobj]; rfl)) buf length_readObj_readCap
    | console c => exact run_copyOut_console (hkind.trans (by rw [hobj]; rfl)) buf length_readObj_readCap
    | stale => exact run_copyOut (hkind.trans (by rw [hobj]; rfl)) buf length_readObj_readCap
    | dir => simp [IoObject.type]

/-- `sys_channel_recv` -/
theorem run_sysChannelRecv (h : Handle) (buf : Addr) (cap : UInt64) :
    Prog.run step (sysChannelRecv h buf cap) s =
      if cap = 0 then (s, Err.einval.code)
      else
        match s.rights with
        | .error e => (s, e.code)
        | .ok rights =>
          if s.obj.type ≠ .channel then (s, Err.einval.code)
          else if rights &&& nxRightRead ≠ nxRightRead then (s, Err.eperm.code)
          else s.readInto buf (readCap cap) := by
  unfold sysChannelRecv lookupChannelEndpoint
  by_cases hcap : cap = 0
  · simp [hcap]
  simp only [hcap, ↓reduceIte, run_bind, run_entry]
  cases hrights : s.rights with
  | error e => simp [view, hrights, Except.map]
  | ok rights =>
    simp only [view, hrights, Except.map]
    by_cases htype : s.obj.type ≠ .channel
    · simp [htype]
    by_cases hread : rights &&& nxRightRead ≠ nxRightRead
    · simp [htype, hread]
    simp only [htype, hread, ↓reduceIte, run_pure]
    have hcons : s.obj.isConsole = false := by
      cases hobj : s.obj <;> simp_all [IoObject.type, IoObject.isConsole]
    exact run_copyOut ((isConsole_readObj _ _).trans ((isConsole_awake _ _).trans hcons)) buf
      length_readObj_readCap

/-! ### Vectors -/

/-- The vectors of an array, as `sys_readv` and `sys_writev` copy them in. -/
def iovecs (s : IoState) (iovs : Addr) (count : ℕ) : List (Addr × UInt64) :=
  (List.range count).map fun i =>
    (le64 (s.bytesAt iovs (16 * count)) (16 * i), le64 (s.bytesAt iovs (16 * count)) (16 * i + 8))

/-- A memory with two vectors in it, 64 bytes into the user window, of two buffers of four bytes
each. -/
def twoVectors : Addr → UInt8 := fun a =>
  let words : List UInt64 := [mmuUserWindowBase, 4, mmuUserWindowBase + 4, 4]
  let i := (a - (mmuUserWindowBase + 64)).toNat
  ((words.getD (i / 8) 0) >>> UInt64.ofNat (8 * (i % 8))).toUInt8

/-- The vectors that are not empty. -/
def fullIovecs (l : List (Addr × UInt64)) : List (Addr × UInt64) := l.filter fun v => v.2 ≠ 0

theorem run_sysIov (io : Addr → UInt64 → UserM ℤ) (iovs : Addr) (a2 : UInt64) :
    Prog.run step (sysIov io iovs a2) s =
      if asInt a2 < 0 then (s, Err.einval.code)
      else if asInt a2 = 0 then (s, 0)
      else if asInt a2 > 16 then (s, Err.einval.code)
      else
        match userRangeCheck iovs (asSize (asInt a2 * 16)) with
        | .error e => (s, e.code)
        | .ok () => Prog.run step (iovLoop io (s.iovecs iovs (asInt a2).toNat) 0) s := by
  unfold sysIov
  dsimp only
  split_ifs with hneg hzero hbig
  · rfl
  · rfl
  · rfl
  · rw [run_bind, run_copyFromUser]
    cases hcheck : userRangeCheck iovs (asSize (asInt a2 * 16)) with
    | error e => rfl
    | ok u =>
      have hsize : (asSize (asInt a2 * 16)).toNat = 16 * (asInt a2).toNat := by
        unfold asSize
        rw [UInt64.toNat_ofNat', Nat.mod_eq_of_lt (by omega)]
        omega
      simp only [Except.map, hsize]
      rfl

theorem run_iovLoop_cons (io : Addr → UInt64 → UserM ℤ) {v : Addr × UInt64} (hv : v.2 ≠ 0)
    (rest : List (Addr × UInt64)) (total : ℤ) :
    Prog.run step (iovLoop io (v :: rest) total) s =
      let r := Prog.run step (io v.1 v.2) s
      if r.2 < 0 then (r.1, if total > 0 then total else r.2)
      else if r.2.toNat < v.2.toNat then (r.1, total + r.2)
      else Prog.run step (iovLoop io rest (total + r.2)) r.1 := by
  obtain ⟨base, len⟩ := v
  simp only [iovLoop, if_neg hv, run_bind, run_ite, run_pure]

/-- Vectors that are empty are passed over. -/
theorem run_iovLoop_full (io : Addr → UInt64 → UserM ℤ) (l : List (Addr × UInt64)) (total : ℤ) :
    Prog.run step (iovLoop io l total) s = Prog.run step (iovLoop io (fullIovecs l) total) s := by
  induction l generalizing s total with
  | nil => rfl
  | cons v l ih =>
    by_cases hv : v.2 = 0
    · have hskip : iovLoop io (v :: l) total = iovLoop io l total := by simp [iovLoop, hv]
      rw [hskip, ih]
      simp [fullIovecs, hv]
    · have hfull : fullIovecs (v :: l) = v :: fullIovecs l := by simp [fullIovecs, hv]
      rw [hfull, run_iovLoop_cons s io hv, run_iovLoop_cons s io hv]
      simp only [ih]

/-- Once something was transferred, the result is no error. -/
theorem run_iovLoop_pos (io : Addr → UInt64 → UserM ℤ) (l : List (Addr × UInt64)) {total : ℤ}
    (htotal : 0 < total) : 0 < (Prog.run step (iovLoop io l total) s).2 := by
  rw [run_iovLoop_full]
  generalize hl : fullIovecs l = full
  have hne : ∀ v ∈ full, v.2 ≠ 0 := fun v hv => by
    rw [← hl] at hv
    simpa using (List.mem_filter.1 hv).2
  clear hl
  induction full generalizing s total with
  | nil => exact htotal
  | cons v rest ih =>
    rw [run_iovLoop_cons s io (hne v List.mem_cons_self)]
    dsimp only
    split_ifs with hneg hshort
    · exact htotal
    · dsimp only
      omega
    · exact ih _ (by omega) fun w hw => hne w (List.mem_cons_of_mem _ hw)

end IoState

end Nonux.Syscall.Io
