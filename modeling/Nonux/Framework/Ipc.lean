import Nonux.Framework.Recompose
import Nonux.Lib.Callback

/-!
# The message router (`framework/ipc.c`)

A message goes from a slot to a slot over a registered connection. If the destination is not paused,
it is handed to the component bound to it (a synchronous connection) or put into the inbox of the
slot (an asynchronous one). If it is paused, the policy of the connection decides: the message is
held, or refused, or sent on to the fallback of the slot. What is held is kept in one queue for each
pair of slots, in the list `g_holds`, and is sent again when the slot is flushed.

## The model

The router calls hooks and message handlers, and those may call the router and everything else of
the framework. The functions are programs with callbacks (`Lib.CallSys`): `ipc` gives the meaning of
their atomic steps, which are the stretches of code between two callbacks, and the bodies of the
functions. The programs of the lifecycle and of recomposition become part of it (`fwOp`), with
draining and flushing as what they are.

* An entry of `g_holds` has an identity that is never reused. The pointer `pp` of a flush that is
  running is the entry whose `next` field it points to; if that entry has been freed, following the
  pointer is a use after free, and the model says so in `fault` and reads a null pointer.
* A message that is sent is a new one, as the router asks of its callers: a message is on one list
  at a time.
* Code that is not the framework's comes in by an `IpcCall`. Whoever bounds what such code does can
  count these calls (`budget`).
* The log has what became of messages and which connections were made, oldest first. Like the
  budget, it is not part of the code.
-/

namespace Nonux.Framework

open Nonux.Lib

/-! ### Messages -/

/-- `enum nx_cap_kind`, with the values that are not in it as one. -/
inductive CapKind where
  | slotRef
  | other
  deriving DecidableEq, Repr

/-- `struct nx_ipc_cap`. -/
structure IpcCap where
  kind : CapKind
  slotRef : Option SlotId
  claimed : Bool := false
  deriving DecidableEq, Repr

/-- `struct nx_ipc_message`, with an identity. -/
structure IpcMessage where
  id : ℕ
  srcSlot : Option SlotId
  dstSlot : Option SlotId
  caps : List IpcCap := []
  deriving DecidableEq, Repr

/-- `struct ipc_hold_entry`: the messages held between two slots, oldest first. -/
structure HoldEntry where
  id : ℕ
  src : SlotId
  dst : SlotId
  queue : List IpcMessage
  deriving DecidableEq, Repr

/-- A call of `nx_ipc_flush_hold_queue` that is running: where its pointer `pp` points, `none` being
`&g_holds`, and the entry it has taken out. -/
structure Flush where
  dst : SlotId
  pp : Option ℕ := none
  cur : Option HoldEntry := none
  deriving DecidableEq, Repr

/-- What became of a message, and of the graph. -/
inductive IpcEvent where
  /-- It is on the hold queue of the two slots. -/
  | held (src dst : SlotId) (m : IpcMessage)
  /-- It is in the inbox of its destination, or on the queue of the dispatcher. -/
  | queued (src dst : SlotId) (m : IpcMessage)
  /-- It is to be handled at once. -/
  | invoked (src dst : SlotId) (m : IpcMessage)
  /-- A flush takes it from its hold queue, to send it again. -/
  | resent (src dst : SlotId) (m : IpcMessage)
  /-- It is taken out of the inbox. -/
  | taken (dst : SlotId) (m : IpcMessage)
  /-- It is handed to the `handle_msg` of the component in the slot. -/
  | delivered (dst : SlotId) (c : CompId) (m : IpcMessage)
  /-- A hook aborts. -/
  | dropped (m : IpcMessage)
  /-- The slot has no component with a `handle_msg`. -/
  | unhandled (dst : SlotId) (m : IpcMessage)
  /-- The router has no use for it. -/
  | refused (m : IpcMessage)
  /-- Its sender is told what `nx_ipc_send` returns. -/
  | told (m : IpcMessage) (rc : ℤ)
  /-- A connection is registered. -/
  | linked (src dst : SlotId)
  deriving DecidableEq, Repr

/-- The registry and the queues. `hosted` tells the two builds apart: the inboxes are those of the
hosted build, the queue of the dispatcher that of the kernel. -/
structure Ipc where
  reg : Registry
  hosted : Bool := true
  inbox : SlotId → Option (List IpcMessage) := fun _ => none
  dispatcher : List IpcMessage := []
  holds : List HoldEntry := []
  nextHold : ℕ := 0
  /-- The flushes that are running, the innermost first. -/
  flushes : List Flush := []
  fault : Bool := false
  nextMessage : ℕ := 0
  /-- The capabilities that were claimed: message and index. -/
  claimed : List (ℕ × ℕ) := []
  budget : ℕ := 0
  log : List IpcEvent := []

/-! ### Routing -/

/-- `find_edge`: the first connection from one slot to the other. -/
def findEdge (r : Registry) (src dst : SlotId) : Option ConnId :=
  (r.nxSlotForeachDependency (some src)).find? fun c => decide ((r.conn c).toSlot = dst)

/-- `nx_ipc_scan_send_caps`: the sender has a connection to every slot it passes on. -/
def nxIpcScanSendCaps (r : Registry) (sender : SlotId) (m : IpcMessage) : Status :=
  if m.caps.all fun cap => decide (cap.kind ≠ .slotRef) || cap.slotRef.any
    fun t => (findEdge r sender t).isSome
  then .ok () else .error .einval

namespace Ipc

/-- Write to the log. -/
def tell (s : Ipc) (ev : IpcEvent) : Ipc := { s with log := s.log ++ [ev] }

/-- `hold_entry_for` and `hold_enqueue`, if there is an entry. -/
def holdEnqueue (src dst : SlotId) (m : IpcMessage) : List HoldEntry → Option (List HoldEntry)
  | [] => none
  | e :: es =>
    if e.src = src ∧ e.dst = dst then some ({ e with queue := e.queue ++ [m] } :: es)
    else (holdEnqueue src dst m es).map (e :: ·)

/-- What the router decides. -/
inductive Route where
  | failed (e : Err)
  /-- The message is on a queue. -/
  | accepted
  | redirect (fallback : Option SlotId)
  | invoke
  deriving DecidableEq, Repr

/-- The router has no use for a message. -/
def refuse (s : Ipc) (m : IpcMessage) (e : Err) : Ipc × Route := (s.tell (.refused m), .failed e)

/-- Hold a message. A new entry is the first of the list. -/
def hold (s : Ipc) (src dst : SlotId) (m : IpcMessage) (calloc : Bool) : Ipc × Route :=
  match holdEnqueue src dst m s.holds with
  | some holds => ({ s with holds }.tell (.held src dst m), .accepted)
  | none =>
    if calloc = false then s.refuse m .enomem
    else
      ({ s with holds := ⟨s.nextHold, src, dst, [m]⟩ :: s.holds, nextHold := s.nextHold + 1 }.tell
        (.held src dst m), .accepted)

/-- Put a message into the inbox of its destination, which is allocated for the first one; or into
the queue of the dispatcher. -/
def enqueue (s : Ipc) (src dst : SlotId) (m : IpcMessage) (calloc : Bool) : Ipc × Route :=
  if s.hosted = false then ({ s with dispatcher := s.dispatcher ++ [m] }.tell (.queued src dst m),
    .accepted)
  else if s.inbox dst = none ∧ calloc = false then s.refuse m .enomem
  else
    ({ s with inbox := Function.update s.inbox dst (some ((s.inbox dst).getD [] ++ [m])) }.tell
      (.queued src dst m), .accepted)

/-- The part of `do_send` between the hooks and the handler. -/
def route (s : Ipc) (src dst : SlotId) (m : IpcMessage) (calloc : Bool) : Ipc × Route :=
  match findEdge s.reg src dst with
  | none => s.refuse m .enoent
  | some c =>
    match nxIpcScanSendCaps s.reg src m with
    | .error e => s.refuse m e
    | .ok () =>
      if s.reg.nxSlotPauseState (some dst) ≠ .none then
        match (s.reg.conn c).policy with
        | .queue => s.hold src dst m calloc
        | .reject => s.refuse m .ebusy
        | .redirect => (s, .redirect (s.reg.slot dst).fallback)
      else if (s.reg.conn c).mode = .sync then (s.tell (.invoked src dst m), .invoke)
      else s.enqueue src dst m calloc

/-- The component that handles the messages of a slot, if there is one. It gets the message. -/
def handlerFor (s : Ipc) (dst : SlotId) (m : IpcMessage) : Ipc × Option CompId :=
  match (s.reg.slot dst).active with
  | none => (s.tell (.unhandled dst m), none)
  | some c =>
    if CompOp.handleMsg ∈ (s.reg.comp c).ops then (s.tell (.delivered dst c m), some c)
    else (s.tell (.unhandled dst m), none)

/-- `dequeue`, from the inbox of a slot. -/
def dequeue (s : Ipc) (slot : SlotId) : Ipc × Option IpcMessage :=
  match s.inbox slot with
  | some (m :: q) => ({ s with inbox := Function.update s.inbox slot (some q) }.tell
      (.taken slot m), some m)
  | _ => (s, none)

/-- The capability of a message, as it is now. -/
def capOf (s : Ipc) (m : IpcMessage) (i : ℕ) : Option IpcCap :=
  m.caps[i]?.map fun cap => { cap with claimed := cap.claimed || decide ((m.id, i) ∈ s.claimed) }

/-! ### Flushing, step by step -/

/-- The list up to the entry the pointer is in, and what follows the pointer; nothing if that entry
is not in the list. -/
def splitAtPp : Option ℕ → List HoldEntry → Option (List HoldEntry × List HoldEntry)
  | none, l => some ([], l)
  | some _, [] => none
  | some i, e :: es =>
    if e.id = i then some ([e], es) else (splitAtPp (some i) es).map fun split => (e :: split.1, split.2)

/-- The head of the loop of `nx_ipc_flush_hold_queue`: pass over the entries of other slots, and
take the next one of this slot out of the list. -/
def flushSeek (s : Ipc) : Ipc × Bool :=
  match s.flushes with
  | [] => (s, false)
  | f :: outer =>
    match splitAtPp f.pp s.holds with
    | none => ({ s with fault := true }, false)
    | some (before, after) =>
      let passed := after.takeWhile fun e => decide (e.dst ≠ f.dst)
      let pp := (passed.getLast?.map (·.id)).or f.pp
      match after.dropWhile fun e => decide (e.dst ≠ f.dst) with
      | [] => ({ s with flushes := { f with pp } :: outer }, false)
      | e :: rest =>
        ({ s with holds := before ++ passed ++ rest, flushes := { f with pp, cur := some e } ::
          outer }, true)

/-- `hold_dequeue`, from the entry that was taken out. -/
def holdDequeue (s : Ipc) : Ipc × Option IpcMessage :=
  match s.flushes with
  | [] => (s, none)
  | f :: outer =>
    match f.cur with
    | some ⟨id, src, dst, m :: queue⟩ =>
      ({ s with flushes := { f with cur := some ⟨id, src, dst, queue⟩ } :: outer }.tell
        (.resent src dst m), some m)
    | _ => (s, none)

/-- `free(e)`. -/
def freeEntry (s : Ipc) : Ipc :=
  match s.flushes with
  | [] => s
  | f :: outer => { s with flushes := { f with cur := none } :: outer }

end Ipc

/-! ### Operations, procedures and callbacks -/

/-- What hooks, handlers, operations of components and other tasks can call. -/
inductive IpcCall where
  /-- A verb, a call of the registry or a recomposition. -/
  | fw (call : FwCall)
  /-- `nx_ipc_send`, of a message of one's own. -/
  | send (src dst : Option SlotId) (caps : List IpcCap)
  | dispatch (slot : Option SlotId) (max : ℕ)
  | flush (dst : Option SlotId)
  /-- `nx_slot_ref_retain`, of a capability of a message. -/
  | retain (self : Option SlotId) (m : IpcMessage) (i : ℕ)
  | release (self target : Option SlotId)
  deriving DecidableEq

/-- The stretches of code that nothing comes between. -/
inductive IpcAtom where
  | registry
  | reg (call : RegCall)
  /-- A question the model has no answer to. -/
  | ask
  | hosted
  /-- Code that is not the framework's makes a call. -/
  | enter (call : IpcCall)
  /-- The caller fills in a message. -/
  | message (src dst : Option SlotId) (caps : List IpcCap)
  | route (src dst : SlotId) (m : IpcMessage)
  | handlerFor (dst : SlotId) (m : IpcMessage)
  | dequeue (slot : SlotId)
  | drop (m : IpcMessage)
  | refuse (m : IpcMessage)
  | flushBegin (dst : SlotId)
  | flushSeek
  | holdDequeue
  | freeEntry
  | flushEnd
  | capOf (m : IpcMessage) (i : ℕ)
  | claim (m : IpcMessage) (i : ℕ)
  /-- For the log: what sending a message returned. -/
  | told (m : IpcMessage) (rc : ℤ)

@[reducible] def IpcAtom.Res : IpcAtom → Type
  | .registry => Registry
  | .reg _ => Status
  | .ask => Bool
  | .hosted => Bool
  | .enter _ => Unit
  | .message _ _ _ => IpcMessage
  | .route _ _ _ => Ipc.Route
  | .handlerFor _ _ => Option CompId
  | .dequeue _ => Option IpcMessage
  | .drop _ => Unit
  | .refuse _ => Unit
  | .flushBegin _ => Unit
  | .flushSeek => Bool
  | .holdDequeue => Option IpcMessage
  | .freeEntry => Unit
  | .flushEnd => Unit
  | .capOf _ _ => Option IpcCap
  | .claim _ _ => Unit
  | .told _ _ => Unit

/-- The functions. -/
inductive IpcProc where
  | api (call : IpcCall)
  | reg (call : RegCall)
  | nxIpcSend (m : IpcMessage)
  | nxIpcDispatch (slot : Option SlotId) (max : ℕ)
  | dispatchLoop (slot : SlotId) (left : ℕ)
  | nxIpcFlushHoldQueue (dst : Option SlotId)
  | flushLoop
  | replay

@[reducible] def IpcProc.Res : IpcProc → Type
  | .api _ => ℤ
  | .reg _ => Status
  | .nxIpcSend _ => ℤ
  | .nxIpcDispatch _ _ => ℕ
  | .dispatchLoop _ _ => ℕ
  | .nxIpcFlushHoldQueue _ => Unit
  | .flushLoop => Unit
  | .replay => Unit

/-- The code that is not the framework's. -/
inductive IpcCallback where
  /-- The hooks of a lifecycle point: whether they abort. -/
  | lifecycle (point : LifecycleHook) (c : CompId) (next : LifecycleState)
  | op (o : CompOp) (c : CompId)
  | notify (c : CompId) (changed : SlotId) (old new : Option CompId) (stateLost : Bool)
  /-- The subscribers to the event of a call, and the hooks of a swap. -/
  | event (call : RegCall)
  | sendHook (m : IpcMessage)
  | recvHook (slot : SlotId) (m : IpcMessage)
  | handleMsg (c : CompId) (m : IpcMessage)
  /-- The other tasks, while one waits for the dispatcher. -/
  | yield

@[reducible] def IpcCallback.Res : IpcCallback → Type
  | .lifecycle _ _ _ => Bool
  | .op _ _ => ℤ
  | .notify _ _ _ _ _ => Unit
  | .event _ => Unit
  | .sendHook _ => Bool
  | .recvHook _ _ => Bool
  | .handleMsg _ _ => ℤ
  | .yield => Unit

/-- Programs of the framework with the router. -/
abbrev IpcM := Prog (Req IpcAtom IpcProc IpcCallback) (Req.Res IpcAtom.Res IpcProc.Res IpcCallback.Res)

namespace IpcM

/-- Perform an atomic step. -/
def atom (a : IpcAtom) : IpcM a.Res := Prog.perform (Req.atom a)

/-- Call a function. -/
def proc (f : IpcProc) : IpcM f.Res := Prog.perform (Req.proc f)

/-- Call code that is not the framework's. -/
def callback (c : IpcCallback) : IpcM c.Res := Prog.perform (Req.callback c)

end IpcM

open IpcM (atom proc callback)

/-! ### The functions -/

/-- `invoke_handler`. What the sweep of the capabilities after it counts is not used. -/
def invokeHandler (dst : SlotId) (m : IpcMessage) : IpcM ℤ := do
  let handler : Option CompId ← atom (.handlerFor dst m)
  match handler with
  | none => pure Err.enoent.code
  | some c => callback (.handleMsg c m)

/-- `do_send`, up to the redirection to a fallback. -/
def doSendOnce (m : IpcMessage) (redirected : Option SlotId → IpcM ℤ) : IpcM ℤ :=
  match m.srcSlot, m.dstSlot with
  | some src, some dst => do
    let abort : Bool ← callback (.sendHook m)
    if abort then do
      atom (.drop m)
      pure Err.eabort.code
    else do
      let route : Ipc.Route ← atom (.route src dst m)
      match route with
      | .failed e => pure e.code
      | .accepted => pure nxOk
      | .redirect fallback => redirected fallback
      | .invoke => invokeHandler dst m
  | _, _ => do
    atom (.refuse m)
    pure Err.einval.code

/-- A redirection that leads nowhere. -/
def refuseWith (m : IpcMessage) (e : Err) : IpcM ℤ := do
  atom (.refuse m)
  pure e.code

/-- `do_send`, with so many redirections left. The message itself gets the new destination. -/
def doSend : ℕ → IpcMessage → IpcM ℤ
  | 0, m => doSendOnce m fun _ => refuseWith m .eloop
  | left + 1, m => doSendOnce m fun fallback =>
    match fallback with
    | none => refuseWith m .enoent
    | some fb => doSend left { m with dstSlot := some fb }

/-- `NX_IPC_REDIRECT_DEPTH_MAX`. -/
def nxIpcRedirectDepthMax : ℕ := 4

/-- The loop of `nx_ipc_dispatch`: how many messages it takes. -/
def dispatchLoop (slot : SlotId) : ℕ → IpcM ℕ
  | 0 => pure 0
  | left + 1 => do
    let next : Option IpcMessage ← atom (.dequeue slot)
    match next with
    | none => pure 0
    | some m => do
      let abort : Bool ← callback (.recvHook slot m)
      if abort then do
        atom (.drop m)
        let n : ℕ ← proc (.dispatchLoop slot left)
        pure (n + 1)
      else do
        let rc ← invokeHandler slot m
        if rc ≠ nxOk then pure 1
        else do
          let n : ℕ ← proc (.dispatchLoop slot left)
          pure (n + 1)

/-- `nx_ipc_dispatch`. In the kernel it does nothing. -/
def nxIpcDispatch (slot : Option SlotId) (max : ℕ) : IpcM ℕ :=
  match slot with
  | none => pure 0
  | some s => do
    let hosted : Bool ← atom .hosted
    if hosted then proc (.dispatchLoop s max) else pure 0

/-- `nx_ipc_flush_hold_queue`. -/
def nxIpcFlushHoldQueue (dst : Option SlotId) : IpcM Unit :=
  match dst with
  | none => pure ()
  | some t => do
    atom (.flushBegin t)
    proc .flushLoop
    atom .flushEnd

/-- Its loop over the entries. -/
def flushLoop : IpcM Unit := do
  let found : Bool ← atom .flushSeek
  if found then do
    proc .replay
    atom .freeEntry
    proc .flushLoop
  else pure ()

/-- Its loop over the messages of an entry. -/
def replay : IpcM Unit := do
  let next : Option IpcMessage ← atom .holdDequeue
  match next with
  | none => pure ()
  | some m => do
    let _ : ℤ ← proc (.nxIpcSend m)
    proc .replay

/-- Whether a call of the registry that succeeds emits an event. -/
def RegCall.emits : RegCall → Bool
  | .slotSetFallback _ _ => false
  | .slotSetPauseState _ _ => false
  | _ => true

/-- A call of the registry, with those who hear of it. -/
def regCallEmit (call : RegCall) : IpcM Status := do
  let st : Status ← atom (.reg call)
  if st = .ok () ∧ call.emits then do
    callback (.event call)
    pure st
  else pure st

/-- `nx_slot_ref_retain`. The connection is asynchronous and queues, whatever the capability is
for. -/
def nxSlotRefRetain (self : Option SlotId) (m : IpcMessage) (i : ℕ) : IpcM ℤ := do
  let cap : Option IpcCap ← atom (.capOf m i)
  match self, cap with
  | some _, some cap =>
    if cap.kind ≠ .slotRef then pure Err.einval.code
    else if cap.claimed then pure Err.einval.code
    else if cap.slotRef = none then pure Err.einval.code
    else do
      let callocConn : Bool ← atom .ask
      let callocNode : Bool ← atom .ask
      let st : Status ← proc (.reg (.connectionRegister self cap.slotRef .async false .queue
        callocConn callocNode))
      if st = .ok () then do
        atom (.claim m i)
        pure nxOk
      else pure st.code
  | _, _ => pure Err.einval.code

/-- `nx_slot_ref_release`. -/
def nxSlotRefRelease (self target : Option SlotId) : IpcM Unit :=
  match self, target with
  | some self, some target => do
    let r : Registry ← atom .registry
    match findEdge r self target with
    | none => pure ()
    | some c => do
      let _ : Status ← proc (.reg (.connectionUnregister (some c)))
      pure ()
  | _, _ => pure ()

/-- `(size_t)-1`. -/
def sizeMax : ℕ := 2 ^ 64 - 1

/-- What the lifecycle and recomposition use, as what it is. -/
def fwOp : (o : FwOp) → IpcM o.Res
  | .registry => atom .registry
  | .reg call => proc (.reg call)
  | .hook point c next => callback (.lifecycle point c next)
  | .op o c => callback (.op o c)
  | .deadlineExceeded _ => atom .ask
  | .drain s => do
    let hosted : Bool ← atom .hosted
    if hosted then do
      let _ : ℕ ← proc (.nxIpcDispatch (some s) sizeMax)
      pure ()
    else callback .yield
  | .flush s => proc (.nxIpcFlushHoldQueue (some s))
  | .notify c changed old new stateLost => callback (.notify c changed old new stateLost)
  | .calloc => atom .ask

/-- The call as a program. -/
def IpcCall.prog : IpcCall → IpcM ℤ
  | .fw call => Prog.interp fwOp call.prog
  | .send src dst caps => do
    let m : IpcMessage ← atom (.message src dst caps)
    let rc : ℤ ← proc (.nxIpcSend m)
    atom (.told m rc)
    pure rc
  | .dispatch slot max => do
    let n : ℕ ← proc (.nxIpcDispatch slot max)
    pure n
  | .flush dst => do
    proc (.nxIpcFlushHoldQueue dst)
    pure nxOk
  | .retain self m i => nxSlotRefRetain self m i
  | .release self target => do
    nxSlotRefRelease self target
    pure nxOk

/-- The bodies of the functions. -/
def ipcBody : (f : IpcProc) → IpcM f.Res
  | .api call => do
    atom (.enter call)
    call.prog
  | .reg call => regCallEmit call
  | .nxIpcSend m => doSend nxIpcRedirectDepthMax m
  | .nxIpcDispatch slot max => nxIpcDispatch slot max
  | .dispatchLoop slot left => dispatchLoop slot left
  | .nxIpcFlushHoldQueue dst => nxIpcFlushHoldQueue dst
  | .flushLoop => flushLoop
  | .replay => replay

/-- What a call of the registry adds to the log. -/
def RegCall.events : RegCall → Status → List IpcEvent
  | .connectionRegister (some src) (some dst) _ _ _ _ _, .ok () => [.linked src dst]
  | _, _ => []

/-- What an atomic step does, with the answer to what it asks. -/
def Ipc.exec (answer : Bool) (s : Ipc) : (a : IpcAtom) → Ipc × a.Res
  | .registry => (s, s.reg)
  | .reg call => ({ s with reg := call.next s.reg, log := s.log ++ call.events (call.apply s.reg).2 },
      (call.apply s.reg).2)
  | .ask => (s, answer)
  | .hosted => (s, s.hosted)
  | .enter _ => ({ s with budget := s.budget - 1 }, ())
  | .message src dst caps => ({ s with nextMessage := s.nextMessage + 1 },
        ⟨s.nextMessage, src, dst, caps⟩)
  | .route src dst m => s.route src dst m answer
  | .handlerFor dst m => s.handlerFor dst m
  | .dequeue slot => s.dequeue slot
  | .drop m => (s.tell (.dropped m), ())
  | .refuse m => (s.tell (.refused m), ())
  | .flushBegin dst => ({ s with flushes := { dst } :: s.flushes }, ())
  | .flushSeek => s.flushSeek
  | .holdDequeue => s.holdDequeue
  | .freeEntry => (s.freeEntry, ())
  | .flushEnd => ({ s with flushes := s.flushes.tail }, ())
  | .capOf m i => (s, s.capOf m i)
  | .claim m i => ({ s with claimed := (m.id, i) :: s.claimed }, ())
  | .told m rc => (s.tell (.told m rc), ())

/-- **The framework with its router.** -/
def ipc : CallSys Ipc IpcAtom.Res IpcProc.Res IpcCallback.Res where
  step s a s' r := ∃ answer, s.exec answer a = (s', r)
  body := ipcBody
  exported f := ∃ call, f = .api call

/-- The state at boot. -/
def bootIpc (hosted : Bool) (slot : SlotId → Slot) (comp : CompId → Component) : Ipc :=
  { reg := bootRegistry slot comp, hosted }

end Nonux.Framework
