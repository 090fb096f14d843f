import Nonux.Syscall.ReadErrors
import Nonux.Syscall.WritevPrefix

/-!
# The end of a pipe (`framework/syscall.c`)

A read returns 0 at the end of the stream: nothing is left, and nobody can write any more. It also
returns 0 when the message it takes is empty. `sys_write` and `sys_writev` do not send an empty
message; `sys_channel_send` does.

A `PipeState` is a channel, seen from one end, with the number of handles to the other.
`read_zero_at_end` says that a read returns 0 at the end of the stream only, in any run in which
nobody has sent an empty message with `sys_channel_send`.
-/

namespace Nonux.Syscall.Io

open Nonux.Framework Nonux.Components Nonux.Lib Nonux.Syscall.UserAccess

/-! ### The model -/

/-- Who makes a call: a handle, what it is good for, and the memory. -/
structure Caller where
  h : Handle
  rights : Except Err UInt32
  mem : Addr → UInt8

/-- What happens to a channel, seen from the reading end. -/
inductive PipeStep where
  | write (c : Caller) (buf : Addr) (len : UInt64)
  | writev (c : Caller) (iovs : Addr) (count : UInt64)
  | send (c : Caller) (buf : Addr) (len : UInt64)
  /-- A handle to the writing end is closed. -/
  | close
  /-- A handle to the writing end is copied. -/
  | retain
  /-- A message is received at the reading end, by any of the calls for it. -/
  | recv (cap : ℕ)

/-- The channel behind a handle. -/
def IoObject.channelD (ch : RingChannel) : IoObject → RingChannel
  | .channel ch' _ => ch'
  | _ => ch

/-- A call at the writing end. -/
def Caller.run (c : Caller) (p : UserM ℤ) (side : Fin 2) (ch : RingChannel) : RingChannel :=
  (Prog.run IoState.step p { mem := c.mem, rights := c.rights, obj := .channel ch side }).1.obj.channelD ch

/-- What a step does to the channel. -/
def PipeStep.onChannel (rd : Fin 2) : PipeStep → RingChannel → RingChannel
  | .write c buf len => c.run (sysWrite c.h buf len) (1 - rd)
  | .writev c iovs count => c.run (sysWritev c.h iovs count) (1 - rd)
  | .send c buf len => c.run (sysChannelSend c.h buf len) (1 - rd)
  | .close => fun ch => ch.nxChannelEndpointClose (1 - rd)
  | .retain => fun ch => ch.nxChannelEndpointRetain (1 - rd)
  | .recv cap => fun ch => (ch.nxChannelRecv (some rd) (some cap)).1

/-- A channel, and the number of handles to its writing end. The default is what `sys_pipe` and
`sys_channel_create` make. -/
structure PipeState where
  ch : RingChannel := {}
  handles : ℕ := 1

namespace PipeState

def step (rd : Fin 2) (s : PipeState) (a : PipeStep) : PipeState where
  ch := a.onChannel rd s.ch
  handles :=
    match a with
    | .close => s.handles - 1
    | .retain => s.handles + 1
    | _ => s.handles

/-- There is a handle to close or to copy. -/
def Possible (s : PipeState) : PipeStep → Prop
  | .close | .retain => s.handles ≠ 0
  | _ => True

instance (s : PipeState) : DecidablePred s.Possible
  | .close | .retain => inferInstanceAs (Decidable (s.handles ≠ 0))
  | .write .. | .writev .. | .send .. | .recv _ => inferInstanceAs (Decidable True)

end PipeState

/-- It does not send an empty message. -/
def PipeStep.SendsBytes : PipeStep → Prop
  | .send _ _ len => len ≠ 0
  | _ => True

instance : DecidablePred PipeStep.SendsBytes
  | .send _ _ len => inferInstanceAs (Decidable (len ≠ 0))
  | .write .. | .writev .. | .close | .retain | .recv _ => inferInstanceAs (Decidable True)

/-! ### The calls that write -/

namespace IoState

variable {s : IoState}

theorem run_sysChannelSend (s : IoState) (h : Handle) (buf : Addr) (len : UInt64) :
    Prog.run step (sysChannelSend h buf len) s =
      if len > ioMax then (s, Err.einval.code)
      else
        match s.rights with
        | .error e => (s, e.code)
        | .ok rights =>
          if s.obj.type ≠ .channel then (s, Err.einval.code)
          else if rights &&& nxRightWrite ≠ nxRightWrite then (s, Err.eperm.code)
          else
            match userRangeCheck buf len with
            | .error e => (s, e.code)
            | .ok () => s.writeFrom buf len.toNat := by
  unfold sysChannelSend lookupChannelEndpoint
  by_cases hlen : len > ioMax
  · simp [hlen]
  simp only [hlen, ↓reduceIte, Prog.run_bind, run_entry]
  cases hrights : s.rights with
  | error e => simp [view, hrights, Except.map]
  | ok rights =>
    simp only [view, hrights, Except.map]
    by_cases htype : s.obj.type ≠ .channel
    · simp [htype]
    by_cases hwrite : rights &&& nxRightWrite ≠ nxRightWrite
    · simp [htype, hwrite]
    simp only [htype, hwrite, ↓reduceIte, Prog.run_pure, Prog.run_bind, run_copyFromUser]
    cases hcheck : userRangeCheck buf len with
    | error e => rfl
    | ok u => rfl

/-- A message that is sent is not empty, if what is sent is not. -/
theorem sysChannelSend_transfers (h : Handle) (hobj : s.obj.isConsole = false) (buf : Addr)
    {len : UInt64} (hlen : len ≠ 0) :
    ∃ bytes, Transferred s.obj (Prog.run step (sysChannelSend h buf len) s).1.obj bytes := by
  rw [run_sysChannelSend]
  by_cases hbig : len > ioMax
  · rw [if_pos hbig]
    exact ⟨[], .same _⟩
  rw [if_neg hbig]
  cases s.rights with
  | error e => exact ⟨[], .same _⟩
  | ok rights =>
    dsimp only
    split_ifs
    · exact ⟨[], .same _⟩
    · exact ⟨[], .same _⟩
    · cases userRangeCheck buf len with
      | error e => exact ⟨[], .same _⟩
      | ok u =>
        have hne : s.bytesAt buf len.toNat ≠ [] := by
          rw [← List.length_pos_iff, length_bytesAt]
          exact Nat.pos_of_ne_zero fun h0 => hlen (UInt64.toNat_inj.1 h0)
        have htransfer := transferred_writeObj hobj hne
        cases hres : (writeObj s.obj (s.bytesAt buf len.toNat)).2 with
        | error e =>
          rw [hres] at htransfer
          exact ⟨_, htransfer⟩
        | ok n =>
          rw [hres] at htransfer
          exact ⟨_, htransfer.2⟩

theorem sysWrite_transferred (h : Handle) (hobj : s.obj.isConsole = false) (buf : Addr) (len : UInt64) :
    ∃ bytes, Transferred s.obj (Prog.run step (sysWrite h buf len) s).1.obj bytes := by
  by_cases hlen : len = 0
  · rw [run_sysWrite, if_pos hlen]
    exact ⟨[], .same _⟩
  · exact ⟨_, (sysWrite_transfers h hobj (v := (buf, len)) hlen).2.1⟩

end IoState

/-! ### The invariant -/

namespace PipeState

/-- No message is empty, and the writing end knows the number of its handles. -/
structure Good (rd : Fin 2) (s : PipeState) : Prop where
  full : [] ∉ (s.ch.e rd).messages
  holds : (s.ch.e (1 - rd)).Holds s.handles

variable {rd : Fin 2} {s : PipeState}

/-- A call at the writing end adds messages that are not empty. -/
theorem Good.run (h : Good rd s) {c : Caller} {p : UserM ℤ} {bytes : List UInt8}
    (hp : Transferred (.channel s.ch (1 - rd)) (Prog.run IoState.step p
      { mem := c.mem, rights := c.rights, obj := .channel s.ch (1 - rd) }).1.obj bytes) :
    Good rd { s with ch := c.run p (1 - rd) s.ch } := by
  unfold Caller.run
  generalize (Prog.run IoState.step p { mem := c.mem, rights := c.rights, obj := .channel s.ch (1 - rd) }).1.obj = obj at hp
  cases hp with
  | same => exact h
  | channel ms hne hq hpeer hown =>
    rw [RingChannel.peerOf_other, RingChannel.peerOf_other] at hq
    refine ⟨?_, ?_⟩
    · simp only [IoObject.channelD, hq, List.mem_append, not_or]
      exact ⟨h.full, hne⟩
    · simp only [IoObject.channelD, hown]
      exact h.holds

/-- Receiving takes messages away. -/
theorem Good.recv (h : Good rd s) (cap : ℕ) :
    Good rd { s with ch := (s.ch.nxChannelRecv (some rd) (some cap)).1 } := by
  by_cases hcap : cap = 0
  · subst hcap
    exact h
  have hmoves := RingChannel.nxChannelRecv_moves s.ch rd hcap
  generalize s.ch.nxChannelRecv (some rd) (some cap) = r at hmoves
  cases hmoves with
  | closed => exact h
  | eof => exact h
  | again => exact h
  | big => exact h
  | @message m q e' hopen hq hfits hq' hsame =>
    have hfull := h.full
    rw [hq] at hfull
    refine ⟨?_, ?_⟩
    · simp only [RingChannel.set_self, hq']
      exact fun hmem => hfull (List.mem_cons_of_mem _ hmem)
    · have hother : (s.ch.set rd e').e (1 - rd) = s.ch.e (1 - rd) := RingChannel.set_peerOf e'
      rw [hother]
      exact h.holds

/-- A step keeps the invariant, if it can be taken and does not send an empty message. -/
theorem Good.step (h : Good rd s) {a : PipeStep} (hposs : s.Possible a) (hbytes : a.SendsBytes) :
    Good rd (s.step rd a) := by
  cases a with
  | write c buf len =>
    obtain ⟨bytes, hwrite⟩ := IoState.sysWrite_transferred
      (s := { mem := c.mem, rights := c.rights, obj := .channel s.ch (1 - rd) }) c.h rfl buf len
    exact h.run hwrite
  | writev c iovs count =>
    obtain ⟨n, -, hwrite, -⟩ := IoState.sysWritev_transfers
      (s := { mem := c.mem, rights := c.rights, obj := .channel s.ch (1 - rd) }) c.h rfl iovs count
    exact h.run hwrite
  | send c buf len =>
    obtain ⟨bytes, hwrite⟩ := IoState.sysChannelSend_transfers
      (s := { mem := c.mem, rights := c.rights, obj := .channel s.ch (1 - rd) }) c.h rfl buf hbytes
    exact h.run hwrite
  | close =>
    obtain ⟨hfull, hrefs, hclosed⟩ := h
    have hne : s.handles ≠ 0 := hposs
    refine ⟨by simpa [PipeState.step, PipeStep.onChannel, RingChannel.nxChannelEndpointClose] using hfull, ?_⟩
    simp only [PipeState.step, PipeStep.onChannel, RingChannel.nxChannelEndpointClose,
      RingChannel.set_self]
    refine ⟨by dsimp only; omega, ?_⟩
    dsimp only
    split_ifs with hlast
    · rw [hclosed]
      omega
    · simp only [true_iff]
      omega
  | retain =>
    obtain ⟨hfull, hrefs, hclosed⟩ := h
    have hne : s.handles ≠ 0 := hposs
    refine ⟨by simpa [PipeState.step, PipeStep.onChannel, RingChannel.nxChannelEndpointRetain] using hfull, ?_⟩
    simp only [PipeState.step, PipeStep.onChannel, RingChannel.nxChannelEndpointRetain,
      RingChannel.set_self]
    refine ⟨by dsimp only; omega, ?_⟩
    dsimp only
    rw [hclosed]
    omega
  | recv cap => exact h.recv cap

theorem good_init (rd : Fin 2) :
    Good rd {} := ⟨by rw [RingEndpoint.messages_eq_nil.2 rfl]; simp, rfl, by simp⟩

/-- The channel of a run does not depend on the number of handles. -/
theorem runFrom_ch (rd : Fin 2) (s : PipeState) (as : List PipeStep) :
    (runFrom (step rd) s as).ch = (as.map (PipeStep.onChannel rd)).foldl
    (fun ch act => act ch) s.ch := by
  induction as generalizing s with
  | nil => rfl
  | cons a as ih => exact ih (s.step rd a)

/-! ### Reads that return 0 -/

/-- A read that returns 0 has found the end of the stream, or an empty message. -/
theorem recv_of_read_zero {s : IoState} (ch : RingChannel) (side : Fin 2) {h : Handle} {buf : Addr}
    {cap : UInt64} (hcap : cap ≠ 0) (hobj : (s.awake (IoState.readCap cap)).obj = .channel ch side)
    (hzero : (Prog.run IoState.step (sysRead h buf cap) s).2 = 0) :
    (ch.nxChannelRecv (some side) (some (IoState.readCap cap))).2 = .ok [] ∧
      (Prog.run IoState.step (sysRead h buf cap) s).1.obj =
        .channel (ch.nxChannelRecv (some side) (some (IoState.readCap cap))).1 side := by
  by_cases hcan : IoState.CanRead s
  swap
  · exact absurd hzero (IoState.run_sysRead_neg hcan h buf hcap).ne
  rw [IoState.run_sysRead_of_canRead hcan h buf hcap, IoState.readInto, hobj] at hzero ⊢
  simp only [IoState.readObj] at hzero ⊢
  cases hr : (ch.nxChannelRecv (some side) (some (IoState.readCap cap))).2 with
  | error e =>
    rw [hr] at hzero
    exact absurd hzero e.code_neg.ne
  | ok bytes =>
    simp only [hr, IoState.deliver, IoObject.isConsole, Bool.false_eq_true, false_and,
      ↓reduceIte] at hzero ⊢
    cases hcheck : userRangeCheck buf (UInt64.ofNat bytes.length) with
    | error e =>
      rw [hcheck] at hzero
      exact absurd hzero e.code_neg.ne
    | ok u =>
      rw [hcheck] at hzero
      have hlen : bytes.length = 0 := Int.ofNat_eq_zero.1 hzero
      exact ⟨congrArg _ (List.length_eq_zero_iff.1 hlen), IoState.store_obj _ _ _ _⟩

/-- **A read of a non-zero count returns 0 at the end of the stream only**, whatever happens before
and while it sleeps: no message waits, and every handle to the writing end was closed. -/
theorem read_zero_at_end (rd : Fin 2) {steps asleep : List PipeStep}
    (hrun : RunOk (step rd) (fun s a => s.Possible a ∧ a.SendsBytes) {} (steps ++ asleep))
    (c : Caller) (buf : Addr) {cap : UInt64} (hcap : cap ≠ 0) :
    let r := Prog.run IoState.step (sysRead c.h buf cap)
      { mem := c.mem, rights := c.rights, obj := .channel (runFrom (step rd) {} steps).ch rd,
        sleeps := true, others := asleep.map (PipeStep.onChannel rd) }
    r.2 = 0 → ∃ k ≤ asleep.length,
      let s := runFrom (step rd) {} (steps ++ asleep.take k)
      r.1.obj = .channel s.ch rd ∧ (s.ch.e rd).messages = [] ∧ s.handles = 0 := by
  intro r hzero
  obtain ⟨k, hk, -, hch⟩ := IoState.await_eq rd (IoState.readCap cap) (runFrom (step rd) {} steps).ch
    (asleep.map (PipeStep.onChannel rd))
  rw [List.length_map] at hk
  rw [← List.map_take, ← runFrom_ch, ← runFrom_append] at hch
  refine ⟨k, hk, ?_⟩
  -- The read returns in the state that the first `k` steps have led to, and that state is good.
  have hgood : Good rd (runFrom (step rd) {} (steps ++ asleep.take k)) := by
    have hsplit : steps ++ asleep = (steps ++ asleep.take k) ++ asleep.drop k := by simp
    rw [hsplit, runOk_append] at hrun
    exact hrun.1.inv (Good rd) (fun s a ha h => h.step ha.1 ha.2) (good_init rd)
  generalize runFrom (step rd) {} (steps ++ asleep.take k) = s at hch hgood ⊢
  obtain ⟨hrecv, hobj⟩ := recv_of_read_zero s.ch rd hcap (by rw [← hch]; rfl) hzero
  have hmoves := RingChannel.nxChannelRecv_moves s.ch rd (IoState.readCap_ne_zero hcap)
  dsimp only
  rw [hobj]
  generalize s.ch.nxChannelRecv (some rd) (some (IoState.readCap cap)) = res at hmoves hrecv ⊢
  cases hmoves with
  | closed => cases hrecv
  | again => cases hrecv
  | big => cases hrecv
  | eof hopen hnil hpeer => exact ⟨rfl, hnil, hgood.holds.2.1 hpeer⟩
  | message hopen hq hfits hq' hsame =>
    cases hrecv
    exact absurd (hq ▸ List.mem_cons_self) hgood.full

/-- A message is sent and received, and the handle is closed: the next read returns 0. -/
theorem read_zero_at_end_closed :
    let caller : Caller := { h := 1, rights := .ok (nxRightRead ||| nxRightWrite), mem := fun _ => 0 }
    let s := runFrom (step 0) {} [.send caller mmuUserWindowBase 4, .recv 4, .close]
    (s.ch.e 0).messages = [] ∧ s.handles = 0 := by
  intro caller s
  have hrun : RunOk (step 0) (fun s a => s.Possible a ∧ a.SendsBytes) {}
      ([.send caller mmuUserWindowBase 4, .recv 4, .close] ++ []) := by decide +kernel
  have hcap : (4 : UInt64) ≠ 0 := by decide
  obtain ⟨k, -, -, hend⟩ := read_zero_at_end 0 hrun caller mmuUserWindowBase hcap (by decide +kernel)
  rwa [List.take_nil, List.append_nil] at hend

/-- After an empty message was sent, a read returns 0 while there is a handle to the writing end. -/
theorem read_zero_while_open :
    let caller : Caller := { h := 1, rights := .ok (nxRightRead ||| nxRightWrite), mem := fun _ => 0 }
    let s := runFrom (step 0) {} [.send caller mmuUserWindowBase 0]
    (Prog.run IoState.step (sysRead 1 mmuUserWindowBase 4)
        { mem := caller.mem, rights := caller.rights, obj := .channel s.ch 0, sleeps := true }).2 = 0 ∧
      (s.ch.e 0).messages = [[]] ∧ s.handles = 1 := by
  decide +kernel

end PipeState

end Nonux.Syscall.Io
