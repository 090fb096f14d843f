import Nonux.Framework.Component
import Nonux.Lib.Bitmap

/-!
# The dispatcher (`framework/dispatcher.c`)

Messages are put on one queue, by any task, and the dispatcher takes them off and calls the
handlers. For a request that asks for one it builds a reply, in an entry of the reply pool, and puts
it on the same queue; the entry is freed when the reply has been handled.

## The model

`DispStep` are the steps that are interleaved: a task enqueues a message, and the dispatcher does
the next part of `nx_dispatcher_pump_once`. The parts are those between which something is left to
others: the hooks, the handler, and the changes of the counters, of the pool and of the queue. Where
the dispatcher is in `nx_dispatcher_pump_once` is its `PumpStage`. When the pool is exhausted it
stops.

The build on a host counts the calls in flight around the handler, the one for the kernel from the
enqueueing on.

`replies_and_counts_ok` says what holds of the replies, the pool and the counters at every moment of
every run.
-/

namespace Nonux.Framework

open Nonux.Lib Function List

/-! ### Messages and the pool -/

/-- `NX_REPLY_PAYLOAD_MAX` -/
def nxReplyPayloadMax : ℕ := 512

/-- `NX_REPLY_POOL_BITMAP_WORDS`, of 64 bits each: there are 256 entries. -/
def nxReplyPoolBitmapWords : ℕ := 4

/-- `NX_REPLY_POOL_SIZE` -/
def nxReplyPoolSize : ℕ := 256

/-- `struct nx_ipc_message`, with what the dispatcher uses. -/
structure DispMsg where
  /-- Which message it is. -/
  id : ℕ
  srcSlot : Option SlotId
  dstSlot : SlotId
  msgType : ℕ := 0
  /-- `NX_MSG_FLAG_REPLY` -/
  reply : Bool := false
  /-- `NX_MSG_FLAG_REPLY_REQUESTED` -/
  replyRequested : Bool := false
  payload : List UInt8 := []
  replyPayloadLen : ℕ := 0
  /-- The entry of the pool that it is in. -/
  entry : Option ℕ := none
  deriving DecidableEq, Repr

/-- `reply_requested && msg->src_slot`: the slot that a reply is to be sent to. -/
def DispMsg.asks (m : DispMsg) : Option SlotId := if m.replyRequested then m.srcSlot else none

/-- `struct nx_reply_header`: the bytes of a code. -/
def replyHeader (rc : ℤ) : List UInt8 :=
  (List.range 4).map fun k => UInt8.ofNat ((rc % 2 ^ 32).toNat / 256 ^ k)

/-- `build_reply`, when the entry has been taken. -/
def buildReply (req : DispMsg) (dst : SlotId) (rc : ℤ) (id entry : ℕ) : DispMsg where
  id := id
  srcSlot := some req.dstSlot
  dstSlot := dst
  msgType := req.msgType
  reply := true
  payload :=
    if 0 < req.replyPayloadLen then req.payload.take (min req.replyPayloadLen nxReplyPayloadMax)
      else replyHeader rc
  entry := some entry

@[simp] theorem buildReply_id (req : DispMsg) (dst : SlotId) (rc : ℤ) (id entry : ℕ) :
    (buildReply req dst rc id entry).id = id := rfl

/-! ### The state -/

/-- Where the dispatcher is. -/
inductive PumpStage where
  | idle
  /-- In `nx_hook_dispatch`. -/
  | hook (m : DispMsg)
  /-- The hooks have aborted. -/
  | aborted (m : DispMsg)
  /-- In `invoke_handler`. -/
  | handler (m : DispMsg)
  /-- The handler has returned. -/
  | returned (m : DispMsg) (rc : ℤ)
  /-- The call is not counted any more, and there may be a reply to be built. -/
  | reply (m : DispMsg) (rc : ℤ)
  /-- A reply has been built. -/
  | send (m reply : DispMsg)
  /-- The entry of the message is to be freed, if it has one. -/
  | free (m : DispMsg)
  /-- `reply_pool_panic_exhausted` -/
  | stopped (m : DispMsg)
  deriving DecidableEq, Repr

/-- What has happened. -/
inductive DispEvent where
  | popped (m : DispMsg)
  /-- A reply was put on the queue for the message with this number. -/
  | replied (to_ : ℕ) (reply : DispMsg)
  | taken (entry : ℕ)
  | freed (entry : ℕ)
  deriving DecidableEq, Repr

/-- The state of the dispatcher. -/
structure DispState where
  /-- `g_disp_mpsc` -/
  queue : List DispMsg := []
  /-- `g_disp_pending` -/
  pending : ℕ := 0
  /-- `in_flight_calls` of the slots. -/
  inFlight : SlotId → ℕ := fun _ => 0
  /-- `g_reply_pool_inuse` -/
  inUse : Bitmap nxReplyPoolBitmapWords 64 := .empty
  stage : PumpStage := .idle
  nextId : ℕ := 0
  log : List DispEvent := []

namespace DispState

/-- `nx_dispatcher_enqueue` -/
def nxDispatcherEnqueue (hosted : Bool) (s : DispState) (m : DispMsg) : DispState :=
  if hosted then { s with queue := s.queue ++ [m] }
  else { s with
    inFlight := update s.inFlight m.dstSlot (s.inFlight m.dstSlot + 1)
    pending := s.pending + 1
    queue := s.queue ++ [m] }

/-- One call to the slot is over. -/
def lower (s : DispState) (slot : SlotId) : DispState :=
  { s with inFlight := update s.inFlight slot (s.inFlight slot - 1) }

/-- The next part of `nx_dispatcher_pump_once`, where it asks nobody. -/
def pump (hosted : Bool) (s : DispState) : DispState :=
  match s.stage with
  | .idle =>
    match s.queue with
    | [] => s
    | m :: rest =>
      { s with
        queue := rest
        pending := if hosted then s.pending else s.pending - 1
        stage := .hook m
        log := s.log ++ [.popped m] }
  | .aborted m => { (if hosted then s else s.lower m.dstSlot) with stage := .reply m Err.eabort.code }
  | .returned m rc => { s.lower m.dstSlot with stage := .reply m rc }
  | .reply m rc =>
    match m.asks with
    | some src =>
      match s.inUse.claim with
      | none => { s with stage := .stopped m }
      | some (inUse, entry) =>
        { s with
          inUse := inUse
          stage := .send m (buildReply m src rc s.nextId entry)
          nextId := s.nextId + 1
          log := s.log ++ [.taken entry] }
    | none => { s with stage := .free m }
  | .send m reply =>
    { s.nxDispatcherEnqueue hosted reply with stage := .free m, log := s.log ++ [.replied m.id reply] }
  | .free m =>
    match m.reply, m.entry with
    | true, some entry =>
      { s with inUse := s.inUse.release entry, stage := .idle, log := s.log ++ [.freed entry] }
    | _, _ => { s with stage := .idle }
  | .hook _ | .handler _ | .stopped _ => s

/-- The hooks have returned. -/
def hookReturns (hosted : Bool) (s : DispState) (abort : Bool) : DispState :=
  match s.stage with
  | .hook m =>
    if abort then { s with stage := .aborted m }
    else
      { s with
        stage := .handler m
        inFlight := if hosted then update s.inFlight m.dstSlot (s.inFlight m.dstSlot + 1)
          else s.inFlight }
  | _ => s

/-- The handler has returned a code. It may have written a reply over the payload. -/
def handlerReturns (s : DispState) (rc : ℤ) (payload : List UInt8) (replyPayloadLen : ℕ) : DispState :=
  match s.stage with
  | .handler m =>
    { s with
      stage := .returned { m with payload := payload, replyPayloadLen := replyPayloadLen } rc }
  | _ => s

end DispState

/-- What a task sends: a request, which is in no entry of the pool. -/
structure Request where
  srcSlot : Option SlotId
  dstSlot : SlotId
  msgType : ℕ := 0
  replyRequested : Bool := false
  payload : List UInt8 := []
  deriving DecidableEq, Repr

/-- The steps. -/
inductive DispStep where
  /-- A task enqueues a new request. -/
  | enqueue (req : Request)
  | pump
  | hookReturns (abort : Bool)
  | handlerReturns (rc : ℤ) (payload : List UInt8) (replyPayloadLen : ℕ)
  deriving DecidableEq, Repr

/-- The message of a request. -/
def Request.message (req : Request) (id : ℕ) : DispMsg where
  id := id
  srcSlot := req.srcSlot
  dstSlot := req.dstSlot
  msgType := req.msgType
  replyRequested := req.replyRequested
  payload := req.payload

@[simp] theorem Request.message_id (req : Request) (id : ℕ) : (req.message id).id = id := rfl

/-- A step. -/
def DispState.step (hosted : Bool) (s : DispState) : DispStep → DispState
  | .enqueue req => { s.nxDispatcherEnqueue hosted (req.message s.nextId) with nextId := s.nextId + 1 }
  | .pump => s.pump hosted
  | .hookReturns abort => s.hookReturns hosted abort
  | .handlerReturns rc payload replyPayloadLen => s.handlerReturns rc payload replyPayloadLen

/-- The run of the steps from the start. -/
def DispState.run (hosted : Bool) (steps : List DispStep) : DispState :=
  runFrom (DispState.step hosted) {} steps

/-! ### What a step can do -/

/-- The steps of the dispatcher and around it. -/
inductive DispMoves (hosted : Bool) (s : DispState) : DispState → Prop
  | stay : DispMoves hosted s s
  | enqueue (req : Request) :
      DispMoves hosted s
        { s.nxDispatcherEnqueue hosted (req.message s.nextId) with nextId := s.nextId + 1 }
  | pop {m : DispMsg} {rest : List DispMsg} (hidle : s.stage = .idle) (hq : s.queue = m :: rest) :
      DispMoves hosted s { s with
        queue := rest
        pending := if hosted then s.pending else s.pending - 1
        stage := .hook m
        log := s.log ++ [.popped m] }
  | refuse {m : DispMsg} (hst : s.stage = .hook m) : DispMoves hosted s { s with stage := .aborted m }
  | enter {m : DispMsg} (hst : s.stage = .hook m) :
      DispMoves hosted s { s with
        stage := .handler m
        inFlight := if hosted then update s.inFlight m.dstSlot (s.inFlight m.dstSlot + 1)
        else s.inFlight }
  | handle {m : DispMsg} (hst : s.stage = .handler m) (rc : ℤ) (payload : List UInt8)
      (replyPayloadLen : ℕ) : DispMoves hosted s { s with
        stage := .returned { m with payload := payload, replyPayloadLen := replyPayloadLen } rc }
  | drop {m : DispMsg} (hst : s.stage = .aborted m) :
      DispMoves hosted s
        { (if hosted then s else s.lower m.dstSlot) with stage := .reply m Err.eabort.code }
  | leave {m : DispMsg} {rc : ℤ} (hst : s.stage = .returned m rc) :
      DispMoves hosted s { s.lower m.dstSlot with stage := .reply m rc }
  | exhausted {m : DispMsg} {rc : ℤ} {src : SlotId} (hst : s.stage = .reply m rc)
      (hasks : m.asks = some src) (hfull : s.inUse.claim = none) :
      DispMoves hosted s { s with stage := .stopped m }
  | build {m : DispMsg} {rc : ℤ} {src : SlotId} {inUse : Bitmap nxReplyPoolBitmapWords 64} {entry : ℕ}
      (hst : s.stage = .reply m rc) (hasks : m.asks = some src)
      (hclaim : s.inUse.claim = some (inUse, entry)) : DispMoves hosted s { s with
        inUse := inUse
        stage := .send m (buildReply m src rc s.nextId entry)
        nextId := s.nextId + 1
        log := s.log ++ [.taken entry] }
  | unasked {m : DispMsg} {rc : ℤ} (hst : s.stage = .reply m rc) (hasks : m.asks = none) :
      DispMoves hosted s { s with stage := .free m }
  | send {m reply : DispMsg} (hst : s.stage = .send m reply) :
      DispMoves hosted s
        { s.nxDispatcherEnqueue hosted reply with
          stage := .free m, log := s.log ++ [.replied m.id reply] }
  | free {m : DispMsg} {entry : ℕ}
      (hst : s.stage = .free m) (hreply : m.reply = true) (he : m.entry = some entry) :
      DispMoves hosted s
        { s with inUse := s.inUse.release entry, stage := .idle, log := s.log ++ [.freed entry] }
  | keep {m : DispMsg} (hst : s.stage = .free m) (hown : m.reply = true → m.entry = none) :
      DispMoves hosted s { s with stage := .idle }

namespace DispState

variable {hosted : Bool} {s s' : DispState}

theorem pump_moves : DispMoves hosted s (s.pump hosted) := by
  unfold pump
  cases hst : s.stage with
  | idle =>
    cases hq : s.queue with
    | nil => exact .stay
    | cons m rest => exact .pop hst hq
  | hook m => exact .stay
  | aborted m => exact .drop hst
  | handler m => exact .stay
  | returned m rc => exact .leave hst
  | reply m rc =>
    cases hasks : m.asks with
    | none => simpa [hasks] using DispMoves.unasked hst hasks
    | some src =>
      cases hclaim : s.inUse.claim with
      | none => simpa [hasks, hclaim] using DispMoves.exhausted hst hasks hclaim
      | some p => simpa [hasks, hclaim] using DispMoves.build hst hasks hclaim
  | send m reply => exact .send hst
  | free m =>
    cases hreply : m.reply with
    | false => simpa [hreply] using DispMoves.keep hst (by simp [hreply])
    | true =>
      cases he : m.entry with
      | none => simpa [hreply, he] using DispMoves.keep hst fun _ => he
      | some entry => simpa [hreply, he] using DispMoves.free hst hreply he
  | stopped m => exact .stay

theorem step_moves (a : DispStep) : DispMoves hosted s (s.step hosted a) := by
  cases a with
  | enqueue req => exact .enqueue req
  | pump => exact pump_moves
  | hookReturns abort =>
    simp only [step, hookReturns]
    cases hst : s.stage with
    | hook m =>
      cases abort with
      | true => exact .refuse hst
      | false => exact .enter hst
    | _ => exact .stay
  | handlerReturns rc payload len =>
    simp only [step, handlerReturns]
    cases hst : s.stage with
    | handler m => exact .handle hst rc payload len
    | _ => exact .stay

@[simp] theorem lower_queue (slot : SlotId) : (s.lower slot).queue = s.queue := rfl

@[simp] theorem lower_inUse (slot : SlotId) : (s.lower slot).inUse = s.inUse := rfl

@[simp] theorem lower_log (slot : SlotId) : (s.lower slot).log = s.log := rfl

@[simp] theorem nxDispatcherEnqueue_queue (m : DispMsg) :
    (s.nxDispatcherEnqueue hosted m).queue = s.queue ++ [m] := by
  cases hosted <;> rfl

@[simp] theorem nxDispatcherEnqueue_stage (m : DispMsg) :
    (s.nxDispatcherEnqueue hosted m).stage = s.stage := by
  cases hosted <;> rfl

@[simp] theorem nxDispatcherEnqueue_inUse (m : DispMsg) :
    (s.nxDispatcherEnqueue hosted m).inUse = s.inUse := by
  cases hosted <;> rfl

@[simp] theorem nxDispatcherEnqueue_log (m : DispMsg) :
    (s.nxDispatcherEnqueue hosted m).log = s.log := by
  cases hosted <;> rfl

/-- **Invariants of runs** of the dispatcher. -/
theorem run_inv (I : DispState → Prop) (h0 : I {})
    (hmoves : ∀ {s s'}, DispMoves hosted s s' → I s → I s') (steps : List DispStep) :
    I (run hosted steps) :=
  runFrom_inv I (fun _ _ h => hmoves (step_moves _) h) h0 steps

end DispState

/-! ### Messages in hand -/

namespace PumpStage

/-- The message that the dispatcher has taken off the queue and not finished with. -/
@[simp] def inHand : PumpStage → List DispMsg
  | .idle => []
  | .hook m | .aborted m | .handler m | .returned m _ | .reply m _ | .send m _ | .free m
  | .stopped m => [m]

/-- The message in the hooks. -/
@[simp] def inHook : PumpStage → List DispMsg
  | .hook m => [m]
  | _ => []

/-- The message in the handler. -/
@[simp] def inHandler : PumpStage → List DispMsg
  | .handler m => [m]
  | _ => []

/-- The reply that has been built and is not on the queue yet. -/
@[simp] def built : PumpStage → List DispMsg
  | .send _ r => [r]
  | _ => []

/-- The message in hand, while no reply to it has been put on the queue. -/
@[simp] def unanswered : PumpStage → List DispMsg
  | .idle | .free _ => []
  | .hook m | .aborted m | .handler m | .returned m _ | .reply m _ | .send m _ | .stopped m => [m]

/-- The message in hand, while the call is counted. -/
@[simp] def counted (hosted : Bool) : PumpStage → List DispMsg
  | .hook m | .aborted m => if hosted then [] else [m]
  | .handler m | .returned m _ => [m]
  | _ => []

end PumpStage

namespace DispState

variable {hosted : Bool} {s s' : DispState}

/-- All messages: those on the queue, and those that the dispatcher has in hand. -/
def messages (s : DispState) : List DispMsg := s.queue ++ s.stage.built ++ s.stage.inHand

/-- The entries of the pool that there are messages in. -/
def entries (s : DispState) : List ℕ := s.messages.filterMap (·.entry)

/-- The messages that are counted as calls in flight. -/
def calls (hosted : Bool) (s : DispState) : List DispMsg :=
  (if hosted then [] else s.queue) ++ s.stage.counted hosted

/-- The messages that were taken off the queue. -/
def popped (s : DispState) : List DispMsg :=
  s.log.filterMap fun | .popped m => some m | _ => none

/-- The replies that were sent to the message with the number. -/
def repliesTo (s : DispState) (id : ℕ) : List DispMsg :=
  s.log.filterMap fun | .replied k reply => if k = id then some reply else none | _ => none

variable {m : DispMsg}

/-- Where the messages come from: they were there, maybe with another payload, or a task has sent
them, or they are replies that were built. -/
theorem mem_messages_moves (hmoves : DispMoves hosted s s') (hm : m ∈ s'.messages) :
    (∃ m₀ ∈ s.messages, ∃ payload len, m = { m₀ with payload := payload, replyPayloadLen := len }) ∨
      (∃ req : Request, m = req.message s.nextId) ∨
      ∃ req dst rc entry, m = buildReply req dst rc s.nextId entry := by
  have old : m ∈ s.messages → ∃ m₀ ∈ s.messages, ∃ payload len,
      m = { m₀ with payload := payload, replyPayloadLen := len } :=
    fun h => ⟨m, h, _, _, rfl⟩
  simp only [messages] at hm
  cases hmoves with
  | stay => exact .inl (old hm)
  | enqueue req =>
    by_cases hreq : m = req.message s.nextId
    · exact .inr (.inl ⟨req, hreq⟩)
    · exact .inl (old (by simpa [messages, hreq] using hm))
  | @handle m' hst rc payload len =>
    have hm : m ∈ s.queue ∨ m = { m' with payload := payload, replyPayloadLen := len } := by
      simpa using hm
    rcases hm with hm | hm
    · exact .inl (old (by simp [messages, hm]))
    · exact .inl ⟨m', by simp [messages, hst], payload, len, hm⟩
  | @build m' rc src inUse entry hst hasks hclaim =>
    by_cases hnew : m = buildReply m' src rc s.nextId entry
    · exact .inr (.inr ⟨_, _, _, _, hnew⟩)
    · exact .inl (old (by simpa [messages, hst, hnew] using hm))
  | pop hidle hq => exact .inl (old (by simpa [messages, hidle, hq, or_comm] using hm))
  | drop hst => exact .inl (old (by cases hosted <;> simpa [messages, hst] using hm))
  | free | keep =>
    have hm : m ∈ s.queue := by simpa using hm
    exact .inl (old (by simp [messages, hm]))
  | _ => exact .inl (old (by simp_all [messages]))

/-! ### The counters -/

/-- The counters of the calls in flight. -/
def Counts (hosted : Bool) (s : DispState) : Prop :=
  ∀ slot, s.inFlight slot = (s.calls hosted).countP fun m => decide (m.dstSlot = slot)

/-- A call more. -/
theorem Counts.raise {inFlight inFlight' : SlotId → ℕ} {ms ms' : List DispMsg}
    (h : ∀ slot, inFlight slot = ms.countP fun m => decide (m.dstSlot = slot))
    (hperm : ms'.Perm (m :: ms))
    (hup : inFlight' = update inFlight m.dstSlot (inFlight m.dstSlot + 1)) (slot : SlotId) :
    inFlight' slot = ms'.countP fun m => decide (m.dstSlot = slot) := by
  rw [hup, hperm.countP_eq, countP_cons, ← h slot, update_apply]
  by_cases hd : slot = m.dstSlot
  · simp [hd]
  · simp [hd, Ne.symm hd]

/-- A call less. -/
theorem Counts.lower {inFlight inFlight' : SlotId → ℕ} {ms ms' : List DispMsg}
    (h : ∀ slot, inFlight slot = ms.countP fun m => decide
      (m.dstSlot = slot)) (hperm : ms.Perm (m :: ms'))
    (hup : inFlight' = update inFlight m.dstSlot (inFlight m.dstSlot - 1)) (slot : SlotId) :
    inFlight' slot = ms'.countP fun m => decide (m.dstSlot = slot) := by
  have hslot := h slot
  rw [hperm.countP_eq, countP_cons] at hslot
  rw [hup, update_apply]
  by_cases hd : slot = m.dstSlot
  · subst hd
    simp only [decide_true, ↓reduceIte] at hslot ⊢
    omega
  · simpa [hd, Ne.symm hd] using hslot

theorem Counts.moves (hmoves : DispMoves hosted s s') (h : Counts hosted s) : Counts hosted s' := by
  cases hosted with
  | true =>
    cases hmoves with
    | enter hst => exact Counts.raise h (by simp [calls, hst, PumpStage.counted]) rfl
    | leave hst => exact Counts.lower h (by simp [calls, hst, PumpStage.counted]) rfl
    | _ => simp_all [Counts, calls, PumpStage.counted, nxDispatcherEnqueue]
  | false =>
    cases hmoves with
    | enqueue req => exact Counts.raise h (by simp [calls, nxDispatcherEnqueue]) rfl
    | send hst => exact Counts.raise h (by simp [calls, hst, PumpStage.counted, nxDispatcherEnqueue]) rfl
    | leave hst | drop hst =>
        exact Counts.lower h (by simp [calls, hst, PumpStage.counted, DispState.lower]) rfl
    | pop hidle hq => simp_all [Counts, calls, PumpStage.counted, countP_cons]
    | _ => simp_all [Counts, calls, PumpStage.counted]

/-! ### The pool -/

/-- What holds of the pool: there is one message in each entry in use, and none in the others; and
each entry was freed as often as it was taken, but for the time that it is in use. -/
structure PoolOk (s : DispState) : Prop where
  held : ∀ i, s.entries.count i = if s.inUse.test i then 1 else 0
  balance : ∀ i, s.log.count (.taken i) = s.log.count (.freed i) + s.entries.count i
  reply : ∀ m ∈ s.messages, m.reply = m.entry.isSome
  full : ∀ m, s.stage = .stopped m → ∀ i < nxReplyPoolSize, s.inUse.test i = true

/-- A step that takes no entry and frees none. -/
theorem PoolOk.frame (h : PoolOk s) (hentries : s'.entries.Perm s.entries) (hinUse : s'.inUse = s.inUse)
    (htaken : ∀ i, s'.log.count (.taken i) = s.log.count (.taken i))
    (hfreed : ∀ i, s'.log.count (.freed i) = s.log.count (.freed i))
    (hreply : ∀ m ∈ s'.messages, m.reply = m.entry.isSome)
    (hfull : ∀ m, s'.stage = .stopped m → ∀ i < nxReplyPoolSize, s.inUse.test i = true) : PoolOk s' where
  held i := by rw [hentries.count_eq, hinUse, h.held]
  balance i := by rw [hentries.count_eq, htaken, hfreed, h.balance]
  reply := hreply
  full := by rwa [hinUse]

/-- A step that takes an entry. -/
theorem PoolOk.take {entry : ℕ} (h : PoolOk s) (hclaim : s.inUse.claim = some (s'.inUse, entry))
    (hentries : s'.entries.Perm (entry :: s.entries)) (hlog : s'.log = s.log ++ [.taken entry])
    (hreply : ∀ m ∈ s'.messages, m.reply = m.entry.isSome) (hfull : ∀ m, s'.stage ≠ .stopped m) :
    PoolOk s' := by
  obtain ⟨-, hfree, htest⟩ := Bitmap.claim_eq_some hclaim
  have hcount (i : ℕ) : s'.entries.count i = s.entries.count i + if entry = i then 1 else 0 := by
    simp [hentries.count_eq, count_cons]
  refine ⟨fun i => ?_, fun i => ?_, hreply, fun m hm => absurd hm (hfull m)⟩
  · rw [hcount, h.held, htest]
    by_cases hi : entry = i
    · subst hi; simp [hfree]
    · simp [hi, Ne.symm hi]
  · rw [hcount, hlog]
    have := h.balance i
    by_cases hi : entry = i
    · subst hi; simp; omega
    · simpa [hi] using this

/-- A step that frees an entry. -/
theorem PoolOk.release {entry : ℕ} (h : PoolOk s) (hinUse : s'.inUse = s.inUse.release entry)
    (hentries : s.entries.Perm (entry :: s'.entries)) (hlog : s'.log = s.log ++ [.freed entry])
    (hreply : ∀ m ∈ s'.messages, m.reply = m.entry.isSome) (hfull : ∀ m, s'.stage ≠ .stopped m) :
    PoolOk s' := by
  have hcount (i : ℕ) : s.entries.count i = s'.entries.count i + if entry = i then 1 else 0 := by
    simp [hentries.count_eq, count_cons]
  have hlt : entry < nxReplyPoolBitmapWords * 64 := by
    by_contra hge
    have := h.held entry
    simp [Bitmap.test_of_le (not_lt.1 hge), hcount] at this
  refine ⟨fun i => ?_, fun i => ?_, hreply, fun m hm => absurd hm (hfull m)⟩
  · have := h.held i
    rw [hcount] at this
    rw [hinUse, Bitmap.test_release hlt]
    by_cases hi : entry = i
    · subst hi
      simp only [ne_eq, not_true_eq_false, decide_false, Bool.and_false, Bool.false_eq_true, ↓reduceIte] at this ⊢
      split_ifs at this
      omega
    · simpa [hi, Ne.symm hi] using this
  · have := h.balance i
    rw [hcount] at this
    rw [hlog]
    by_cases hi : entry = i
    · subst hi
      simp at this ⊢
      omega
    · simpa [hi] using this

theorem PoolOk.moves (hmoves : DispMoves hosted s s') (h : PoolOk s) : PoolOk s' := by
  have hreply : ∀ m ∈ s'.messages, m.reply = m.entry.isSome := by
    intro m hm
    rcases mem_messages_moves hmoves hm with ⟨m₀, hm₀, payload, len, rfl⟩ | ⟨req, rfl⟩ | ⟨req, dst, rc, entry, rfl⟩
    · exact h.reply m₀ hm₀
    · rfl
    · rfl
  cases hmoves with
  | stay => exact h
  | enqueue req =>
    exact h.frame (by simp [entries, messages, Request.message]) (by simp) (by simp) (by simp)
      hreply (by simpa using h.full)
  | @pop m rest hidle hq =>
    have : (rest ++ [m]).Perm (m :: rest) := by simp
    exact h.frame (by simpa [entries, messages, hidle, hq] using this.filterMap (·.entry)) rfl
      (by simp) (by simp) hreply
      (by simp)
  | exhausted hst hasks hclaim =>
    exact h.frame (by simp [entries, messages, hst]) rfl (by simp) (by simp) hreply
      fun _ _ => Bitmap.claim_eq_none.1 hclaim
  | build hst hasks hclaim => exact h.take hclaim (by simp [entries, messages, hst, buildReply]) rfl hreply (by simp)
  | free hst hrep he => exact h.release rfl (by simp [entries, messages, hst, he]) rfl hreply (by simp)
  | @keep m hst hown =>
    have hentry : m.entry = none := by
      have := h.reply m (by simp [messages, hst])
      cases he : m.entry with
      | none => rfl
      | some entry => simp_all
    exact h.frame (by simp [entries, messages, hst, hentry]) rfl (by simp) (by simp) hreply (by simp)
  | drop hst => cases hosted <;> exact h.frame (by simp [entries, messages, hst]) rfl (by simp) (by simp) hreply (by simp)
  | refuse hst | enter hst | handle hst | leave hst | unasked hst | send hst =>
    exact h.frame (by simp [entries, messages, hst, filterMap_cons]) (by simp) (by simp) (by simp)
      hreply (by simp)

/-! ### The replies -/

/-- The numbers given out so far. -/
def ids (s : DispState) : List ℕ := (s.popped ++ s.queue ++ s.stage.built).map (·.id)

/-- No number is given out twice. -/
structure IdsOk (s : DispState) : Prop where
  lt : ∀ id ∈ s.ids, id < s.nextId
  nodup : s.ids.Nodup

theorem IdsOk.frame (h : IdsOk s) (hids : s'.ids.Perm s.ids) (hnext : s'.nextId = s.nextId) :
    IdsOk s' where
  lt id hid := hnext ▸ h.lt id (hids.mem_iff.1 hid)
  nodup := hids.nodup_iff.2 h.nodup

theorem IdsOk.fresh (h : IdsOk s) (hids : s'.ids.Perm (s.nextId :: s.ids))
    (hnext : s'.nextId = s.nextId + 1) : IdsOk s' where
  lt id hid := by
    rw [hnext]
    rcases mem_cons.1 (hids.mem_iff.1 hid) with rfl | hid
    · omega
    · exact Nat.lt_succ_of_lt (h.lt id hid)
  nodup := hids.nodup_iff.2 (nodup_cons.2 ⟨fun hid => lt_irrefl _ (h.lt _ hid), h.nodup⟩)

theorem IdsOk.moves (hmoves : DispMoves hosted s s') (h : IdsOk s) : IdsOk s' := by
  cases hmoves with
  | stay => exact h
  | enqueue req =>
    refine h.fresh ?_ rfl
    have : (s.popped ++ (s.queue ++ [req.message s.nextId]) ++ s.stage.built).Perm
        (req.message s.nextId :: (s.popped ++ s.queue ++ s.stage.built)) := by
      rw [← append_assoc, append_assoc _ [_]]
      exact perm_middle
    simpa [ids, popped] using this.map (·.id)
  | @build m rc src inUse entry hst hasks hclaim =>
    refine h.fresh ?_ rfl
    have : (s.popped ++ s.queue ++ [buildReply m src rc s.nextId entry]).Perm
        (buildReply m src rc s.nextId entry :: (s.popped ++ s.queue)) := perm_append_singleton _ _
    simpa [ids, popped, hst] using this.map (·.id)
  | pop hidle hq => exact h.frame (by simp [ids, popped, hidle, hq]) rfl
  | send hst => exact h.frame (by simp [ids, popped, hst]) (by cases hosted <;> rfl)
  | drop hst => cases hosted <;> exact h.frame (by simp [ids, popped, hst]) rfl
  | refuse hst | enter hst | handle hst | leave hst | exhausted hst | unasked hst | free hst | keep hst =>
    exact h.frame (by simp [ids, popped, hst]) rfl

/-- What holds of the replies: each message that was taken off the queue has had the reply that it
asked for, or is in hand. -/
structure RepliesOk (s : DispState) : Prop extends IdsOk s where
  inHand : ∀ m ∈ s.stage.inHand, ∃ m₀ ∈ s.popped, m₀.id = m.id ∧ m₀.asks = m.asks
  built : ∀ m reply, s.stage = .send m reply → m.asks = some reply.dstSlot
  replied : ∀ id, s.repliesTo id ≠ [] → id ∈ s.popped.map (·.id)
  answered : ∀ m ∈ s.popped, (s.repliesTo m.id).map (·.dstSlot) =
    if m.id ∈ s.stage.unanswered.map (·.id) then [] else m.asks.toList

/-- A step that takes no message off the queue and sends no reply. -/
theorem RepliesOk.frame (h : RepliesOk s) (hids : IdsOk s') (hpopped : s'.popped = s.popped)
    (hreplies : ∀ id, s'.repliesTo id = s.repliesTo id)
    (hinHand : ∀ m ∈ s'.stage.inHand, ∃ m₀ ∈ s.stage.inHand, m₀.id = m.id ∧ m₀.asks = m.asks)
    (hbuilt : ∀ m reply, s'.stage = .send m reply → m.asks = some reply.dstSlot)
    (hunanswered : s'.stage.unanswered.map (·.id) = s.stage.unanswered.map (·.id)) : RepliesOk s' where
  toIdsOk := hids
  inHand m hm := by
    obtain ⟨m₁, hm₁, hid, hasks⟩ := hinHand m hm
    obtain ⟨m₀, hm₀, hid₀, hasks₀⟩ := h.inHand m₁ hm₁
    exact ⟨m₀, hpopped ▸ hm₀, hid₀.trans hid, hasks₀.trans hasks⟩
  built := hbuilt
  replied id hne := hpopped ▸ h.replied id (hreplies id ▸ hne)
  answered m hm := by rw [hreplies, hunanswered, h.answered m (hpopped ▸ hm)]

/-- The message in hand asks for what the message asked for that was taken off the queue under its
number. -/
theorem RepliesOk.asks_inHand (h : RepliesOk s) {m₀ : DispMsg} (hm : m ∈ s.stage.inHand)
    (hm₀ : m₀ ∈ s.popped) (hid : m₀.id = m.id) : m₀.asks = m.asks := by
  obtain ⟨m₁, hm₁, hid₁, hasks₁⟩ := h.inHand m hm
  have hnodup : (s.popped.map (·.id)).Nodup := by
    have := h.nodup
    simp only [ids, map_append, append_assoc] at this
    exact this.of_append_left
  have heq : m₀ = m₁ := inj_on_of_nodup_map hnodup hm₀ hm₁ (hid.trans hid₁.symm)
  rw [heq, hasks₁]

theorem RepliesOk.moves (hmoves : DispMoves hosted s s') (h : RepliesOk s) : RepliesOk s' := by
  have hids : IdsOk s' := h.toIdsOk.moves hmoves
  cases hmoves with
  | stay => exact h
  | enqueue req =>
    exact h.frame hids (by simp [popped]) (by simp [repliesTo])
      (by simpa using fun m hm => ⟨m, hm, rfl, rfl⟩) (by simpa using h.built) (by simp)
  | build hst hasks hclaim =>
    exact h.frame hids (by simp [popped]) (by simp [repliesTo]) (by simp [hst])
      (by simp [buildReply, hasks]) (by simp [hst])
  | @pop m rest hidle hq =>
    have hnew : m.id ∉ s.popped.map (·.id) := by
      have hnodup := h.nodup
      simp only [ids, hq, hidle, map_append, map_cons, PumpStage.built, append_nil] at hnodup
      exact fun hmem => (nodup_append.1 hnodup).2.2 _ hmem _ mem_cons_self rfl
    have hpopped : ∀ m', m' ∈ (popped { s with
        queue := rest, pending := if hosted then s.pending else s.pending - 1, stage := .hook m,
        log := s.log ++ [.popped m] }) ↔ m' ∈ s.popped ∨ m' = m := by simp [popped]
    have hreplies (id : ℕ) : repliesTo { s with
        queue := rest, pending := if hosted then s.pending else s.pending - 1, stage := .hook m,
        log := s.log ++ [.popped m] } id = s.repliesTo id := by simp [repliesTo]
    refine ⟨hids, ?_, by simp, ?_, ?_⟩
    · simp [hpopped]
    · intro id hne
      rw [hreplies] at hne
      obtain ⟨m', hm', hid⟩ := mem_map.1 (h.replied id hne)
      exact mem_map.2 ⟨m', (hpopped m').2 (.inl hm'), hid⟩
    · intro m' hm'
      rw [hreplies]
      rcases (hpopped m').1 hm' with hold | rfl
      · have hne : m'.id ≠ m.id := fun heq => hnew (mem_map.2 ⟨m', hold, heq⟩)
        simpa [hidle, hne] using h.answered m' hold
      · have hnone : s.repliesTo m'.id = [] := by
          by_contra hne
          exact hnew (h.replied _ hne)
        simp [hnone]
  | @send m reply hst =>
    have hinHand : m ∈ s.stage.inHand := by simp [hst]
    have hpopped : popped { s.nxDispatcherEnqueue hosted reply with
        stage := .free m, log := s.log ++ [.replied m.id reply] } = s.popped := by simp [popped]
    have hreplies (id : ℕ) : repliesTo { s.nxDispatcherEnqueue hosted reply with
        stage := .free m, log := s.log ++ [.replied m.id reply] } id =
          s.repliesTo id ++ if m.id = id then [reply] else [] := by
      by_cases hid : m.id = id <;> simp [repliesTo, hid]
    refine ⟨hids, ?_, by simp, ?_, ?_⟩
    · rw [hpopped]
      simpa [hst] using h.inHand m hinHand
    · intro id hne
      rw [hpopped]
      rw [hreplies] at hne
      by_cases hid : m.id = id
      · obtain ⟨m₀, hm₀, hid₀, -⟩ := h.inHand m hinHand
        exact mem_map.2 ⟨m₀, hm₀, hid₀.trans hid⟩
      · exact h.replied id (by simpa [hid] using hne)
    · intro m₀ hm₀
      rw [hpopped] at hm₀
      rw [hreplies]
      have hans := h.answered m₀ hm₀
      by_cases hid : m₀.id = m.id
      · have hasks : m₀.asks = some reply.dstSlot := (h.asks_inHand hinHand hm₀ hid).trans
          (h.built m reply hst)
        simp_all
      · simpa [hst, hid, Ne.symm hid] using hans
  | drop hst =>
    cases hosted <;> exact h.frame hids rfl (fun _ => rfl) (by simp [hst]) (by simp) (by simp [hst])
  | @unasked m rc hst hasks =>
    have hinHand : m ∈ s.stage.inHand := by simp [hst]
    refine ⟨hids, by simpa [hst, popped] using h.inHand m hinHand, by simp, h.replied, fun m₀ hm₀ => ?_⟩
    have hans := h.answered m₀ hm₀
    by_cases hid : m₀.id = m.id
    · have hnone : m₀.asks = none := (h.asks_inHand hinHand hm₀ hid).trans hasks
      simpa [hst, hid, hnone, repliesTo] using hans
    · simpa [hst, hid, repliesTo] using hans
  | refuse hst | enter hst | leave hst | exhausted hst | free hst | keep hst =>
    exact h.frame hids (by simp [popped]) (by simp [repliesTo]) (by simp [hst]) (by simp) (by simp [hst])
  | handle hst =>
    exact h.frame hids (by simp [popped]) (by simp [repliesTo]) (by simp [hst, DispMsg.asks])
      (by simp) (by simp [hst])

/-! ### Every request is dealt with -/

/-- The message with the number has been answered, or the dispatcher has stopped. -/
def Settled (id : ℕ) (s : DispState) : Prop :=
  (∃ m, s.stage = .stopped m) ∨ ∃ reply, .replied id reply ∈ s.log

/-- When the dispatcher has stopped, it has stopped for good. -/
theorem stopped_moves (hmoves : DispMoves hosted s s') (h : s.stage = .stopped m) :
    s'.stage = .stopped m := by
  cases hmoves with
  | stay => exact h
  | enqueue req => simpa using h
  | _ => simp_all

theorem Settled.moves {id : ℕ} (hmoves : DispMoves hosted s s') (h : Settled id s) : Settled id s' := by
  rcases h with ⟨m, hm⟩ | ⟨r, hr⟩
  · exact .inl ⟨m, stopped_moves hmoves hm⟩
  · cases hmoves with
    | drop hst => cases hosted <;> exact .inr ⟨r, hr⟩
    | _ => exact .inr ⟨r, by simp [hr]⟩

theorem settled_of_send {reply : DispMsg} (hst : s.stage = .send m reply) :
    Settled m.id (s.pump hosted) :=
  .inr ⟨reply, by simp [pump, hst]⟩

variable {src : SlotId}

theorem settled_of_reply {rc : ℤ} (hst : s.stage = .reply m rc) (hasks : m.asks = some src) :
    Settled m.id ((s.pump hosted).pump hosted) := by
  cases hclaim : s.inUse.claim with
  | none => exact Settled.moves pump_moves (.inl ⟨m, by simp [pump, hst, hasks, hclaim]⟩)
  | some p =>
    have hsend : (s.pump hosted).stage = .send m (buildReply m src rc s.nextId p.2) := by
      simp [pump, hst, hasks, hclaim]
    exact settled_of_send hsend

/-- Nothing is left for others to do: the dispatcher gets to the reply. -/
theorem settled_of_pumps (hm : m ∈ s.stage.unanswered) (hasks : m.asks = some src)
    (hhook : ∀ m, s.stage ≠ .hook m) (hhandler : ∀ m, s.stage ≠ .handler m) :
    Settled m.id (((s.pump hosted).pump hosted).pump hosted) := by
  cases hst : s.stage with
  | idle => simp [hst] at hm
  | hook m' => exact absurd hst (hhook m')
  | handler m' => exact absurd hst (hhandler m')
  | free m' => simp [hst] at hm
  | aborted m' =>
    obtain rfl : m = m' := by simpa [hst] using hm
    have hreply : (s.pump hosted).stage = .reply m Err.eabort.code := by simp [pump, hst]
    exact settled_of_reply hreply hasks
  | returned m' rc =>
    obtain rfl : m = m' := by simpa [hst] using hm
    have hreply : (s.pump hosted).stage = .reply m rc := by simp [pump, hst]
    exact settled_of_reply hreply hasks
  | reply m' rc =>
    obtain rfl : m = m' := by simpa [hst] using hm
    exact Settled.moves pump_moves (settled_of_reply hst hasks)
  | send m' reply =>
    obtain rfl : m = m' := by simpa [hst] using hm
    exact Settled.moves pump_moves (Settled.moves pump_moves (settled_of_send hst))
  | stopped m' =>
    have hstop : Settled m.id s := .inl ⟨m', hst⟩
    exact Settled.moves pump_moves (Settled.moves pump_moves (Settled.moves pump_moves hstop))

/-- Once the hooks and the handler have returned, the dispatcher still has the message in hand, and
waits for nobody. -/
theorem stage_of_returns (hm : m ∈ s.stage.unanswered) (abort : Bool) (rc : ℤ)
    (payload : List UInt8) (len : ℕ) :
    let stage := ((s.hookReturns hosted abort).handlerReturns rc payload len).stage
    (∃ m' ∈ stage.unanswered, m'.id = m.id ∧ m'.asks = m.asks) ∧ (∀ m, stage ≠ .hook m) ∧
    ∀ m, stage ≠ .handler m := by
  cases hst : s.stage with
  | hook m' => cases abort <;> simp_all [hookReturns, handlerReturns, DispMsg.asks]
  | _ => simp_all [hookReturns, handlerReturns, DispMsg.asks]

/-- **The dispatcher gets through with the message in hand**, once the hooks and the handler have
returned. -/
theorem settled_of_unanswered (hm : m ∈ s.stage.unanswered) (hasks : m.asks = some src)
    (abort : Bool) (rc : ℤ) (payload : List UInt8) (len : ℕ) :
    Settled m.id (runFrom (step hosted) s [.hookReturns abort, .handlerReturns rc payload len,
      .pump, .pump, .pump]) := by
  obtain ⟨⟨m', hm', hid, hasks'⟩, hhook, hhandler⟩ := @stage_of_returns hosted _ _ hm abort rc
    payload len
  rw [← hid]
  exact settled_of_pumps hm' (hasks'.trans hasks) hhook hhandler

/-! ### Every run -/

theorem repliesOk_run (steps : List DispStep) : RepliesOk (run hosted steps) :=
  run_inv RepliesOk ⟨⟨by simp [ids, popped], by simp [ids, popped]⟩,
    by simp, by simp, by simp [repliesTo], by simp [popped]⟩ RepliesOk.moves steps

/-- **Replies, the pool and the counters, at every moment of every run**: a message that was taken
off the queue and asks for a reply has had exactly one, sent to the slot that it came from, unless
the dispatcher has it in hand; it comes to that, once the hooks and the handler return, unless it
stops because all entries of the pool are in use. The entries in use are those of the replies on the
queue and in hand, each in its own; each was freed once for each time that it was taken, or is in
use. The kernel's counters count the messages on the queue, and that in hand until it has been
handled. -/
theorem replies_and_counts_ok (hosted : Bool) (steps : List DispStep) :
    let s := run hosted steps
    (∀ m ∈ s.popped, ∀ src, m.asks = some src →
      if m.id ∈ s.stage.unanswered.map (·.id) then s.repliesTo m.id = []
      else ∃ reply, s.repliesTo m.id = [reply] ∧ reply.dstSlot = src) ∧
    (∀ m ∈ s.stage.unanswered, ∀ src, m.asks = some src → ∀ abort rc payload len,
      Settled m.id (runFrom (step hosted) s [.hookReturns abort, .handlerReturns rc payload len,
        .pump, .pump, .pump])) ∧
    (∀ m, s.stage = .stopped m → ∀ i < nxReplyPoolSize, s.inUse.test i = true) ∧
    (s.messages.filterMap (·.entry)).Nodup ∧ (∀ m ∈ s.messages, m.reply = m.entry.isSome) ∧
    (∀ i, s.inUse.test i = true ↔ ∃ m ∈ s.messages, m.reply = true ∧ m.entry = some i) ∧
    (∀ i, s.log.count (.taken i) = s.log.count (.freed i) + if s.inUse.test i then 1 else 0) ∧
    (hosted = false → ∀ slot, s.inFlight slot =
      s.queue.countP (fun m => decide (m.dstSlot = slot)) +
        (s.stage.counted false).countP fun m => decide (m.dstSlot = slot)) := by
  intro s
  have hpool : PoolOk s :=
    run_inv PoolOk ⟨by simp [entries, messages], by simp [entries, messages], by simp [messages], by simp⟩ PoolOk.moves steps
  have hreplies : RepliesOk s := repliesOk_run steps
  have hcounts : Counts hosted s := run_inv (Counts hosted) (by simp [Counts, calls]) Counts.moves steps
  refine ⟨?_, fun m hm src hasks => settled_of_unanswered hm hasks, hpool.full, ?_, hpool.reply, ?_,
    ?_, ?_⟩
  · intro m hm src hasks
    have hans := hreplies.answered m hm
    split_ifs at hans ⊢
    · simpa using hans
    · rw [hasks] at hans
      exact map_eq_singleton_iff.1 hans
  · refine nodup_iff_count_le_one.2 fun i => ?_
    have := hpool.held i
    unfold entries at this
    split_ifs at this <;> omega
  · intro i
    have hmem : s.inUse.test i = true ↔ i ∈ s.entries := by
      rw [← count_pos_iff, hpool.held]
      split_ifs with h <;> simp [h]
    rw [hmem, entries, mem_filterMap]
    constructor
    · rintro ⟨m, hm, he⟩
      exact ⟨m, hm, by simp [hpool.reply m hm, he], he⟩
    · rintro ⟨m, hm, -, he⟩
      exact ⟨m, hm, he⟩
  · intro i
    rw [hpool.balance, hpool.held]
  · intro hkernel slot
    subst hkernel
    simpa [calls] using hcounts slot

/-- The message that the dispatcher stops with never gets a reply. -/
theorem no_reply_of_stopped {steps : List DispStep} (hstop : (run hosted steps).stage = .stopped m) :
    ∃ m₀ ∈ (run hosted steps).popped, m₀.asks = m.asks ∧
      ∀ more, (run hosted (steps ++ more)).repliesTo m₀.id = [] := by
  obtain ⟨m₀, hm₀, hid, hasks⟩ := (repliesOk_run steps).inHand m (by rw [hstop]; simp)
  refine ⟨m₀, hm₀, hasks, fun more => ?_⟩
  have hmore : (run hosted (steps ++ more)).stage = .stopped m := by
    rw [run, runFrom_append]
    exact runFrom_inv (fun s : DispState => s.stage = .stopped m)
      (fun _ _ => stopped_moves (step_moves _)) hstop more
  obtain ⟨m', hm', hid', -⟩ := (repliesOk_run (steps ++ more)).inHand m (by rw [hmore]; simp)
  have hans := (repliesOk_run (steps ++ more)).answered m' hm'
  rw [hid.trans hid'.symm]
  simpa [hmore, hid'] using hans

/-- A request from the slot 0 to the slot 1. -/
def ask : Request where
  srcSlot := some 0
  dstSlot := 1
  replyRequested := true

/-- So many requests are sent before the dispatcher runs. Then it takes them off the queue, and the
hooks abort. -/
def flood (n : ℕ) : List DispStep :=
  List.replicate n (.enqueue ask) ++
    (List.replicate n [DispStep.pump, .hookReturns true, .pump, .pump, .pump, .pump]).flatten

/-- With 257 requests on the queue the pool is exhausted: the last of them never gets a reply. -/
theorem no_reply_when_exhausted :
    ∃ m ∈ (run false (flood 257)).popped, m.asks = some 0 ∧
      ∀ more, (run false (flood 257 ++ more)).repliesTo m.id = [] := by
  have hstop : (run false (flood 257)).stage = .stopped (ask.message 256) := by decide +kernel
  exact no_reply_of_stopped hstop

end DispState

end Nonux.Framework
