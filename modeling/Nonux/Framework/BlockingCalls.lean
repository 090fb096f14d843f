import Nonux.Framework.Dispatcher

/-!
# Blocking calls and their replies (`framework/slot_call.c`, `components/posix_shim`)

A task that calls a slot puts its request on the dispatcher's queue and waits on a queue of its own.
The dispatcher hands the request to the component and sends the reply to the slot of the task, where
the handler is that of `posix_shim`: it stores the reply into the buffer that the task has noted,
and wakes the task.

## The model

`CallState` has the state of the dispatcher (`DispState`) and, for every slot that is the
`caller_slot` of a task, where the task is in its call (`CallStage`). A caller can be preempted
between any two stages; the dispatcher takes the steps that it has in `DispStep`, and at the slot of
a task its handler is `posixShimHandleMsg`. Hooks may abort what they like, and anybody may send
other requests.

## What is proved

* `DispState.Owes.moves`: a task that waits is owed a message, its request or the reply, until the
  reply is handled or aborted.
* `no_caller_left_parked`: once the dispatcher has emptied its queue nobody is parked, in any run
  where buffers are not null and no reply is aborted or handled too early.
-/

namespace Nonux.Framework

open Nonux.Lib Function

/-! ### The parties -/

/-- Where a task is in `nx_slot_call_blocking`. -/
inductive CallStage where
  | out
  /-- In the hooks, with its buffer noted. -/
  | hook (req : Request)
  /-- Its request is on the queue, and it does not wait yet. -/
  | sent
  /-- On its `reply_waitq`. -/
  | parked
  /-- Woken up, and not on its way yet. -/
  | woken
  deriving DecidableEq, Repr

/-- What `struct nx_task` has for its calls. -/
structure Caller where
  callerSlotActive : Bool := true
  inFlightReplyBuf : Option ℕ := none
  inFlightReplyBufLen : ℕ := 0
  inFlightReplyRc : ℤ := 0
  /-- What was copied into the buffer. -/
  replyBytes : List UInt8 := []
  stage : CallStage := .out
  deriving DecidableEq, Repr

/-- The request is sent, and the call is not over. -/
def Caller.Waits (c : Caller) : Prop := c.stage = .sent ∨ c.stage = .parked

instance Caller.decidableWaits (c : Caller) : Decidable c.Waits := inferInstanceAs (Decidable (_ ∨ _))

/-- `struct posix_shim_state`, the counters that the handler changes. -/
structure PosixShim where
  messagesHandled : ℕ := 0
  replyUnboundCaller : ℕ := 0
  replyTruncations : ℕ := 0
  repliesRouted : ℕ := 0
  deriving DecidableEq, Repr

/-- The code in the header of a reply, an `int32_t`. -/
def replyHeaderRc (payload : List UInt8) : ℤ :=
  (((payload.take 4).foldr (fun b n => b.toNat + 256 * n) 0 : ℕ) : ℤ).bmod (2 ^ 32)

/-- `nx_waitq_wake_one` on the `reply_waitq`, on which only the task itself waits. -/
def Caller.wake (c : Caller) : Caller := if c.stage = .parked then { c with stage := .woken } else c

/-- `posix_shim_handle_msg`. The task is the one that the slot is a part of, if it is one of a
task. -/
def posixShimHandleMsg (shim : PosixShim) (task : Option Caller) (m : DispMsg) :
    PosixShim × Option Caller × ℤ :=
  let shim := { shim with messagesHandled := shim.messagesHandled + 1 }
  if m.reply = false then (shim, task, Err.einval.code)
  else
    match task with
    | none => (shim, task, Err.einval.code)
    | some c =>
      if c.callerSlotActive = false ∨ c.inFlightReplyBuf = none then
        ({ shim with replyUnboundCaller := shim.replyUnboundCaller + 1 }, task, Err.einval.code)
      else if m.payload.length < 4 ∨ c.inFlightReplyBufLen < m.payload.length then
        ({ shim with replyTruncations := shim.replyTruncations + 1 },
          some { c with inFlightReplyRc := Err.einval.code }.wake, 0)
      else
        ({ shim with repliesRouted := shim.repliesRouted + 1 },
          some { c with inFlightReplyRc := replyHeaderRc m.payload, replyBytes := m.payload }.wake, 0)

/-- The dispatcher and the callers. -/
structure CallState where
  disp : DispState := {}
  task : SlotId → Option Caller
  shim : PosixShim := {}

/-- The steps. -/
inductive CallerStep where
  /-- Somebody else sends a request. -/
  | enqueue (req : Request)
  /-- A task calls a slot that is not paused, and has noted its buffer. -/
  | call (t slot : SlotId) (msgType : ℕ) (payload : List UInt8) (replyBuf : Option ℕ) (replyBufLen : ℕ)
  /-- The hooks have returned, and the capabilities were looked at. -/
  | send (t : SlotId) (abort capsOk : Bool)
  | park (t : SlotId)
  /-- A task that was woken returns. -/
  | finish (t : SlotId)
  | pump
  | hookReturns (abort : Bool)
  /-- The handler returns. At the slot of a task it is that of `posix_shim`. -/
  | handlerReturns (rc : ℤ) (payload : List UInt8) (replyPayloadLen : ℕ)
  deriving DecidableEq, Repr

namespace CallState

/-- Store to a task. -/
def setTask (s : CallState) (t : SlotId) (c : Caller) : CallState :=
  { s with task := update s.task t (some c) }

/-- `nx_slot_call_blocking`, from the noting of the buffer to the hooks. -/
def call (s : CallState) (t slot : SlotId) (msgType : ℕ) (payload : List UInt8)
    (replyBuf : Option ℕ) (replyBufLen : ℕ) : CallState :=
  match s.task t with
  | none => s
  | some c =>
    if c.stage = .out ∧ c.callerSlotActive = true ∧ c.inFlightReplyBuf = none then
      s.setTask t { c with
        inFlightReplyBuf := replyBuf, inFlightReplyBufLen := replyBufLen, inFlightReplyRc := 0
        stage := .hook { srcSlot := some t, dstSlot := slot, msgType, replyRequested := true, payload } }
    else s

/-- From the hooks to `nx_dispatcher_enqueue`. -/
def send (hosted : Bool) (s : CallState) (t : SlotId) (abort capsOk : Bool) : CallState :=
  match s.task t with
  | none => s
  | some c =>
    match c.stage with
    | .hook req =>
      if abort = true ∨ capsOk = false then
        s.setTask t { c with inFlightReplyBuf := none, inFlightReplyBufLen := 0, stage := .out }
      else { s.setTask t { c with stage := .sent } with disp := s.disp.step hosted (.enqueue req) }
    | _ => s

/-- `nx_waitq_wait_with_deadline` -/
def park (s : CallState) (t : SlotId) : CallState :=
  match s.task t with
  | none => s
  | some c => if c.stage = .sent then s.setTask t { c with stage := .parked } else s

/-- The end of the call. -/
def finish (s : CallState) (t : SlotId) : CallState :=
  match s.task t with
  | none => s
  | some c =>
    if c.stage = .woken then
      s.setTask t { c with inFlightReplyBuf := none, inFlightReplyBufLen := 0, inFlightReplyRc := 0, stage := .out }
    else s

/-- `invoke_handler` -/
def handlerReturns (s : CallState) (rc : ℤ) (payload : List UInt8) (replyPayloadLen : ℕ) : CallState :=
  match s.disp.stage with
  | .handler m =>
    match s.task m.dstSlot with
    | none => { s with disp := s.disp.handlerReturns rc payload replyPayloadLen }
    | some c =>
      let res := posixShimHandleMsg s.shim (some c) m
      { disp := s.disp.handlerReturns res.2.2 m.payload m.replyPayloadLen
        task := update s.task m.dstSlot res.2.1
        shim := res.1 }
  | _ => s

def step (hosted : Bool) (s : CallState) : CallerStep → CallState
  | .enqueue req => { s with disp := s.disp.step hosted (.enqueue req) }
  | .call t slot msgType payload replyBuf replyBufLen => s.call t slot msgType payload replyBuf
      replyBufLen
  | .send t abort capsOk => s.send hosted t abort capsOk
  | .park t => s.park t
  | .finish t => s.finish t
  | .pump => { s with disp := s.disp.pump hosted }
  | .hookReturns abort => { s with disp := s.disp.hookReturns hosted abort }
  | .handlerReturns rc payload replyPayloadLen => s.handlerReturns rc payload replyPayloadLen

end CallState

/-! ### Conditions -/

namespace CallState

/-- The task that a message is a reply to. -/
def replyTask (s : CallState) (m : DispMsg) : Option Caller :=
  if m.reply = true then s.task m.dstSlot else none

/-- The conditions on a step: a caller has a buffer; a reply to somebody who waits is not aborted;
and when it is handled, the task has parked. -/
def Permitted (s : CallState) : CallerStep → Prop
  | .call _ _ _ _ replyBuf _ => replyBuf ≠ none
  | .hookReturns abort => abort = true → ∀ m ∈ s.disp.stage.inHook, ∀ c ∈ s.replyTask m, ¬ c.Waits
  | .handlerReturns .. => ∀ m ∈ s.disp.stage.inHandler, ∀ c ∈ s.replyTask m, c.stage ≠ .sent
  | .enqueue _ | .send .. | .park _ | .finish _ | .pump => True

instance (s : CallState) : DecidablePred s.Permitted
  | .call .. => inferInstanceAs (Decidable (_ ≠ _))
  | .hookReturns _ => inferInstanceAs (Decidable (_ → _))
  | .handlerReturns .. => inferInstanceAs (Decidable (∀ m ∈ _, _))
  | .enqueue _ | .send .. | .park _ | .finish _ | .pump => inferInstanceAs (Decidable True)

end CallState

/-! ### Who is owed a message -/

/-- A request of the task, or a reply to it. -/
def DispMsg.Concerns (m : DispMsg) (t : SlotId) : Prop :=
  m.asks = some t ∨ m.reply = true ∧ m.dstSlot = t

/-- A request of the task, or a reply to it that is not handled, is on its way. -/
def DispState.Owes (d : DispState) (t : SlotId) : Prop :=
  (∃ m ∈ d.queue, m.Concerns t) ∨ (∃ m ∈ d.stage.unanswered, m.asks = some t) ∨
    ∃ m ∈ d.stage.inHook ++ d.stage.inHandler, m.reply = true ∧ m.dstSlot = t

/-- A reply that was built is one to whom the request is from. -/
def DispState.Built (d : DispState) : Prop :=
  ∀ m r, d.stage = .send m r → r.reply = true ∧ m.asks = some r.dstSlot

section

variable {hosted : Bool} {d d' : DispState} {t : SlotId}

theorem DispState.Built.moves (hmoves : DispMoves hosted d d') (h : d.Built) : d'.Built := by
  intro m r hst
  cases hmoves with
  | stay => exact h m r hst
  | enqueue req => exact h m r (by simpa using hst)
  | build hold hasks hclaim =>
    obtain ⟨rfl, rfl⟩ := PumpStage.send.inj hst
    exact ⟨rfl, hasks⟩
  | _ => cases hst

/-- **What is owed stays owed**, until a reply is aborted or handled. -/
theorem DispState.Owes.moves (hmoves : DispMoves hosted d d') (hbuilt : d.Built) (h : d.Owes t) :
    d'.Owes t ∨ ∃ m, m.reply = true ∧ m.dstSlot = t ∧
      (d.stage = .hook m ∧ d'.stage = .aborted m ∨ d.stage = .handler m ∧ ∃ m' rc,
        d'.stage = .returned m' rc) := by
  unfold DispState.Owes at h ⊢
  cases hmoves with
  | stay => exact .inl h
  | enqueue req =>
    refine .inl (h.imp ?_ fun h => by simpa using h)
    rintro ⟨m, hm, ht⟩
    exact ⟨m, by simp [hm], ht⟩
  | @pop m rest hidle hq =>
    -- The message moves from the queue into the hand, whichever it is.
    simp only [hidle, hq, List.mem_cons, PumpStage.unanswered, PumpStage.inHook, PumpStage.inHandler,
      List.append_nil, List.not_mem_nil, false_and, exists_false, or_false] at h
    obtain ⟨m', rfl | hm', ht⟩ := h
    · exact .inl (.inr (ht.imp (fun ht => ⟨m', by simp, ht⟩) fun ht => ⟨m', by simp, ht⟩))
    · exact .inl (.inl ⟨m', hm', ht⟩)
  | refuse hst =>
    rcases h with hq | hasks | ⟨m', hm', hreply⟩
    · exact .inl (.inl hq)
    · exact .inl (.inr (.inl (by simpa [hst] using hasks)))
    · obtain rfl : m' = _ := by simpa [hst] using hm'
      exact .inr ⟨m', hreply.1, hreply.2, .inl ⟨hst, rfl⟩⟩
  | enter hst => exact .inl (by simpa [hst] using h)
  | @handle m hst rc payload len =>
    rcases h with hq | hasks | ⟨m', hm', hreply⟩
    · exact .inl (.inl hq)
    · exact .inl (.inr (.inl (by simpa [hst, DispMsg.asks] using hasks)))
    · obtain rfl : m' = m := by simpa [hst] using hm'
      exact .inr ⟨m', hreply.1, hreply.2, .inr ⟨hst, _, _, rfl⟩⟩
  | drop hst => cases hosted <;> exact .inl (by simpa [hst] using h)
  | leave hst | exhausted hst | build hst => exact .inl (by simpa [hst] using h)
  | unasked hst hasks => exact .inl (by simpa [hst, hasks] using h)
  | @send m reply hst =>
    obtain ⟨hreply, hasks⟩ := hbuilt m reply hst
    simp only [hst, PumpStage.unanswered, List.mem_singleton, exists_eq_left, hasks, PumpStage.inHook,
      PumpStage.inHandler, List.append_nil, List.not_mem_nil, false_and, exists_false, or_false] at h
    refine .inl (.inl ?_)
    rcases h with ⟨m', hm', ht⟩ | ht
    · exact ⟨m', by simp [hm'], ht⟩
    · exact ⟨reply, by simp, .inr ⟨hreply, Option.some_inj.mp ht⟩⟩
  | free hst | keep hst => exact .inl (by simpa [hst] using h)

end

/-! ### The handler of `posix_shim` -/

/-- The task can take a reply. -/
def Caller.Ready (c : Caller) : Prop := c.callerSlotActive = true ∧ c.inFlightReplyBuf ≠ none

/-- What the handler leaves of the task: it is woken by a reply, if it can take it and has
parked. -/
structure ShimLeaves (c : Caller) (m : DispMsg) (c' : Caller) : Prop where
  active : c'.callerSlotActive = c.callerSlotActive
  buf : c'.inFlightReplyBuf = c.inFlightReplyBuf
  stage : c'.stage = c.stage ∨ c.stage = .parked ∧ c'.stage = .woken
  wakes : m.reply = true → c.Ready → c'.stage ≠ .parked

theorem Caller.shimLeaves_wake {c c' : Caller} {m : DispMsg}
    (hactive : c'.callerSlotActive = c.callerSlotActive)
    (hbuf : c'.inFlightReplyBuf = c.inFlightReplyBuf) (hstage : c'.stage = c.stage) :
    ShimLeaves c m c'.wake := by
  unfold Caller.wake
  split_ifs with hparked
  · exact ⟨hactive, hbuf, .inr ⟨hstage ▸ hparked, rfl⟩, fun _ _ => by simp⟩
  · exact ⟨hactive, hbuf, .inl hstage, fun _ _ => hparked⟩

theorem posixShimHandleMsg_leaves (shim : PosixShim) (c : Caller) (m : DispMsg) :
    ∃ c', (posixShimHandleMsg shim (some c) m).2.1 = some c' ∧ ShimLeaves c m c' := by
  unfold posixShimHandleMsg
  dsimp only
  split_ifs with hreply hunbound hlen
  · exact ⟨c, rfl, rfl, rfl, .inl rfl, fun h => by simp [hreply] at h⟩
  · refine ⟨c, rfl, rfl, rfl, .inl rfl, fun _ hready => ?_⟩
    rcases hunbound with hinactive | hnull
    · exact absurd hready.1 (by simp [hinactive])
    · exact absurd hnull hready.2
  · exact ⟨_, rfl, Caller.shimLeaves_wake rfl rfl rfl⟩
  · exact ⟨_, rfl, Caller.shimLeaves_wake rfl rfl rfl⟩

/-! ### Runs -/

namespace CallState

/-- What every permitted step keeps: a task that is to send has its request and its buffer ready,
and one that waits is owed a message. -/
structure Good (s : CallState) : Prop where
  built : s.disp.Built
  hooked : ∀ t c req, s.task t = some c → c.stage = .hook req →
    req.srcSlot = some t ∧ req.replyRequested = true ∧ c.Ready
  waits : ∀ t c, s.task t = some c → c.Waits → s.disp.Owes t ∧ c.Ready

variable {hosted : Bool} {s : CallState} {t : SlotId} {c : Caller}

/-- The dispatcher moves on, and what is owed to those who wait stays owed. -/
theorem Good.setDisp (h : s.Good) {d' : DispState} (hmoves : DispMoves hosted s.disp d')
    (howes : ∀ t c, s.task t = some c → c.Waits → s.disp.Owes t → d'.Owes t) :
    Good { s with disp := d' } where
  built := h.built.moves hmoves
  hooked := h.hooked
  waits t c hc hw := ⟨howes t c hc hw (h.waits t c hc hw).1, (h.waits t c hc hw).2⟩

/-- A task moves on. -/
theorem Good.setTask (h : s.Good)
    (hhooked : ∀ req, c.stage = .hook req → req.srcSlot = some t ∧ req.replyRequested = true ∧ c.Ready)
    (hwaits : c.Waits → s.disp.Owes t ∧ c.Ready) : (s.setTask t c).Good := by
  have hcases : ∀ u c', (s.setTask t c).task u = some c' → u = t ∧ c' = c ∨ s.task u = some c' := by
    intro u c' hu
    by_cases hut : u = t
    · subst hut
      exact .inl ⟨rfl, by simpa [CallState.setTask, eq_comm] using hu⟩
    · exact .inr (by simpa [CallState.setTask, hut] using hu)
  refine ⟨h.built, fun u c' req hu hst => ?_, fun u c' hu hw => ?_⟩
  · rcases hcases u c' hu with ⟨rfl, rfl⟩ | hold
    · exact hhooked req hst
    · exact h.hooked u c' req hold hst
  · rcases hcases u c' hu with ⟨rfl, rfl⟩ | hold
    · exact hwaits hw
    · exact h.waits u c' hold hw

/-- A step of the dispatcher in which no reply is aborted or handled. -/
theorem Good.setDisp_of_quiet (h : s.Good) {d' : DispState} (hmoves : DispMoves hosted s.disp d')
    (hquiet : ∀ m, s.disp.stage = .hook m ∨ s.disp.stage = .handler m → d'.stage = s.disp.stage) :
    Good { s with disp := d' } := by
  refine h.setDisp hmoves fun t c hc hw howes => ?_
  rcases howes.moves hmoves h.built with howes | ⟨m, -, -, ⟨hst, hst'⟩ | ⟨hst, m', rc, hst'⟩⟩
  · exact howes
  · rw [hquiet m (.inl hst), hst] at hst'
    cases hst'
  · rw [hquiet m (.inr hst), hst] at hst'
    cases hst'

theorem Good.enqueue (h : s.Good) (req : Request) :
    Good { s with disp := s.disp.step hosted (.enqueue req) } :=
  h.setDisp_of_quiet (DispState.step_moves (.enqueue req)) fun _ _ => by simp [DispState.step]

theorem Good.pump (h : s.Good) : Good { s with disp := s.disp.pump hosted } := by
  refine h.setDisp_of_quiet DispState.pump_moves fun m hst => ?_
  rcases hst with hst | hst <;> simp [DispState.pump, hst]

/-- The request is on the queue, and so the task is owed a message. -/
theorem Good.sendRequest (h : s.Good) (hc : s.task t = some c) {req : Request}
    (hreq : c.stage = .hook req) :
    Good { s.setTask t { c with stage := .sent } with disp := s.disp.step hosted (.enqueue req) } := by
  obtain ⟨hsrc, hasks, hready⟩ := h.hooked t c req hc hreq
  have howes : (s.disp.step hosted (.enqueue req)).Owes t :=
    .inl ⟨req.message s.disp.nextId,
      by simp [DispState.step], .inl (by simp [DispMsg.asks, Request.message, hasks, hsrc])⟩
  exact (h.enqueue req).setTask (fun _ hst => by cases hst) fun _ => ⟨howes, hready⟩

theorem Good.hookReturns (h : s.Good) {abort : Bool} (hok : s.Permitted (.hookReturns abort)) :
    Good { s with disp := s.disp.hookReturns hosted abort } := by
  have hmoves : DispMoves hosted s.disp (s.disp.hookReturns hosted abort) :=
    DispState.step_moves (.hookReturns abort)
  refine h.setDisp hmoves fun t c hc hw howes => ?_
  rcases howes.moves hmoves h.built with howes | ⟨m, hreply, hdst, ⟨hst, hst'⟩ | ⟨hst, m', rc, hst'⟩⟩
  · exact howes
  · -- It was aborted, but not if its task waits.
    have habort : abort = true := by
      by_contra hno
      simp [DispState.hookReturns, hst, hno] at hst'
    exact absurd hw (hok habort m (by simp [hst]) c (by simp [replyTask, hreply, hdst, hc]))
  · simp [DispState.hookReturns, hst] at hst'

/-- The handler has returned. What is owed to others stays owed. -/
theorem Good.owes_handlerReturns (h : s.Good) {m : DispMsg} (hst : s.disp.stage = .handler m)
    (howes : s.disp.Owes t) (hother : m.reply = true → m.dstSlot ≠ t) (rc : ℤ)
    (payload : List UInt8) (len : ℕ) : (s.disp.handlerReturns rc payload len).Owes t := by
  have hmoves : DispMoves true s.disp (s.disp.handlerReturns rc payload len) :=
    DispState.step_moves (.handlerReturns rc payload len)
  rcases howes.moves hmoves h.built with howes | ⟨m', hreply, hdst, ⟨hst', -⟩ | ⟨hst', -⟩⟩
  · exact howes
  · rw [hst] at hst'
    cases hst'
  · obtain rfl : m = m' := by simpa [hst] using hst'
    exact absurd hdst (hother hreply)

/-- The handler of `posix_shim` has returned. -/
theorem Good.handled (h : s.Good) {m : DispMsg} (hst : s.disp.stage = .handler m)
    (hc : s.task m.dstSlot = some c) (hok : ∀ c ∈ s.replyTask m, c.stage ≠ .sent) {c' : Caller}
    (hhandled : ShimLeaves c m c') (shim : PosixShim) (rc : ℤ) :
    Good { disp := s.disp.handlerReturns rc m.payload m.replyPayloadLen
           task := update s.task m.dstSlot (some c'), shim } := by
  have hready : c'.Ready ↔ c.Ready := by simp [Caller.Ready, hhandled.active, hhandled.buf]
  refine ⟨h.built.moves (@DispState.step_moves true _ (.handlerReturns rc m.payload m.replyPayloadLen)),
    fun u d req hu hreq => ?_, fun u d hu hw => ?_⟩ <;> dsimp only at hu
  · by_cases hud : u = m.dstSlot
    · subst hud
      obtain rfl : c' = d := by simpa using hu
      have hold : c.stage = .hook req := by
        rcases hhandled.stage with hstage | ⟨-, hwoken⟩
        · exact hstage ▸ hreq
        · rw [hwoken] at hreq
          cases hreq
      obtain ⟨hsrc, hasks, hr⟩ := h.hooked _ c req hc hold
      exact ⟨hsrc, hasks, hready.mpr hr⟩
    · exact h.hooked u d req (by simpa [hud] using hu) hreq
  · by_cases hud : u = m.dstSlot
    · subst hud
      obtain rfl : c' = d := by simpa using hu
      have hstage : c'.stage = c.stage := by
        rcases hhandled.stage with hstage | ⟨-, hwoken⟩
        · exact hstage
        · rcases hw with hw | hw <;> exact absurd (hwoken.symm.trans hw) (by simp)
      have hold : c.Waits := by simpa [Caller.Waits, hstage] using hw
      obtain ⟨howes, hr⟩ := h.waits _ c hc hold
      refine ⟨h.owes_handlerReturns hst howes (fun hreply => ?_) _ _ _, hready.mpr hr⟩
      -- A reply would have woken it.
      have hparked : c'.stage = .parked := by
        refine hw.resolve_left fun hsent => hok c (by simp [replyTask, hreply, hc]) ?_
        exact hstage.symm.trans hsent
      exact absurd hparked (hhandled.wakes hreply hr)
    · obtain ⟨howes, hr⟩ := h.waits u d (by simpa [hud] using hu) hw
      exact ⟨h.owes_handlerReturns hst howes (fun _ hdst => hud hdst.symm) _ _ _, hr⟩

theorem Good.handlerReturns (h : s.Good) {rc : ℤ} {payload : List UInt8} {len : ℕ}
    (hok : s.Permitted (.handlerReturns rc payload len)) : (s.handlerReturns rc payload len).Good := by
  unfold CallState.handlerReturns
  split
  · rename_i m hst
    split
    · -- Not the slot of a task, so nobody is owed the message as a reply.
      rename_i hnone
      refine h.setDisp (@DispState.step_moves true _ (.handlerReturns rc payload len))
        fun t c hc _ howes => ?_
      refine h.owes_handlerReturns hst howes (fun _ hdst => ?_) rc payload len
      rw [hdst, hc] at hnone
      cases hnone
    · rename_i c hc
      obtain ⟨c', heq, hhandled⟩ := posixShimHandleMsg_leaves s.shim c m
      dsimp only
      rw [heq]
      exact h.handled hst hc (hok m (by simp [hst])) hhandled _ _
  · exact h

theorem Good.step (h : s.Good) {a : CallerStep} (hok : s.Permitted a) : (s.step hosted a).Good := by
  cases a with
  | enqueue req => exact h.enqueue req
  | call t slot msgType payload replyBuf replyBufLen =>
    simp only [CallState.step, CallState.call]
    split
    · exact h
    · rename_i c hc
      split_ifs with hout
      · refine h.setTask (fun req hreq => ?_) fun hw => ?_
        · obtain rfl := CallStage.hook.inj hreq
          exact ⟨rfl, rfl, hout.2.1, hok⟩
        · rcases hw with hw | hw <;> cases hw
      · exact h
  | send t abort capsOk =>
    simp only [CallState.step, CallState.send]
    split
    · exact h
    · rename_i c hc
      split
      · rename_i req hreq
        split_ifs with hrefused
        · exact h.setTask (fun _ hst => by cases hst) fun hw => by rcases hw with hw | hw <;> cases hw
        · exact h.sendRequest hc hreq
      · exact h
  | park t =>
    simp only [CallState.step, CallState.park]
    split
    · exact h
    · rename_i c hc
      split_ifs with hsent
      · exact h.setTask (fun _ hst => by cases hst) fun _ => h.waits t c hc (.inl hsent)
      · exact h
  | finish t =>
    simp only [CallState.step, CallState.finish]
    split
    · exact h
    · split_ifs
      · exact h.setTask (fun _ hst => by cases hst) fun hw => by rcases hw with hw | hw <;> cases hw
      · exact h
  | pump => exact h.pump
  | hookReturns abort => exact h.hookReturns hok
  | handlerReturns rc payload len => exact h.handlerReturns hok

/-- The callers before any call. -/
def start (callerSlotActive : SlotId → Option Bool) : CallState where
  task t := (callerSlotActive t).map fun active => { callerSlotActive := active }

theorem good_start (callerSlotActive : SlotId → Option Bool) : (start callerSlotActive).Good := by
  have hout : ∀ t c, (start callerSlotActive).task t = some c → c.stage = .out := by
    intro t c hc
    obtain ⟨active, -, rfl⟩ := Option.map_eq_some_iff.mp hc
    rfl
  refine ⟨fun _ _ hst => (by cases hst), fun t c req hc hst => ?_, fun t c hc hw => ?_⟩
  · rw [hout t c hc] at hst
    cases hst
  · rcases hw with hw | hw <;> rw [hout t c hc] at hw <;> cases hw

/-- **Nobody is left parked.** In any run whose steps are permitted, when the dispatcher has emptied
its queue no task waits for a reply. -/
theorem no_caller_left_parked (hosted : Bool) (callerSlotActive : SlotId → Option Bool)
    (steps : List CallerStep)
    (hok : RunOk (CallState.step hosted) Permitted (start callerSlotActive) steps) :
    let s := runFrom (CallState.step hosted) (start callerSlotActive) steps
    s.disp.queue = [] → s.disp.stage = .idle → ∀ t c, s.task t = some c → c.stage ≠ .parked := by
  intro s hqueue hidle t c hc hparked
  have h : s.Good := hok.inv Good (fun _ _ hok h => h.step hok) (good_start callerSlotActive)
  have howes := (h.waits t c hc (.inr hparked)).1
  simp [DispState.Owes, hqueue, hidle] at howes

/-- Slot 1 is that of a task. -/
def oneTask : SlotId → Option Bool := fun t => if t = 1 then some true else none

/-- The dispatcher deals with a message: it takes it, and hooks and handler return. -/
def pumpMessage (abort : Bool) : List CallerStep :=
  [.pump, .hookReturns abort, .handlerReturns 0 [] 0, .pump, .pump, .pump, .pump]

/-- A call that is answered after the task has parked. -/
def answeredCall : List CallerStep :=
  [.call 1 2 0 [] (some 4096) 8, .send 1 false true, .park 1] ++ pumpMessage false ++ pumpMessage false

theorem no_caller_left_parked_answered :
    ((runFrom (CallState.step false) (start oneTask) answeredCall).task 1).map Caller.stage =
    some .woken ∧
      ∀ t c, (runFrom (CallState.step false) (start oneTask) answeredCall).task t = some c →
      c.stage ≠ .parked :=
  ⟨by decide +kernel,
    no_caller_left_parked false oneTask answeredCall (by decide +kernel) (by decide +kernel)
      (by decide +kernel)⟩

/-- The dispatcher has emptied its queue, and the task is parked. -/
def LeftParked (s : CallState) : Prop :=
  s.disp.queue = [] ∧ s.disp.stage = .idle ∧ (s.task 1).map Caller.stage = some .parked

instance (s : CallState) : Decidable s.LeftParked := inferInstanceAs (Decidable (_ ∧ _))

/-- **Callers that sleep for ever.** The request is sent and answered before the task parks; a hook
aborts the reply; the buffer is null. -/
theorem caller_left_parked :
    LeftParked (runFrom (CallState.step false) (start oneTask)
        ([.call 1 2 0 [] (some 4096) 8, .send 1 false true] ++ pumpMessage false ++
          pumpMessage false ++ [.park 1])) ∧
      LeftParked (runFrom (CallState.step false) (start oneTask)
        ([.call 1 2 0 [] (some 4096) 8, .send 1 false true, .park 1] ++ pumpMessage false ++
          pumpMessage true)) ∧
      LeftParked (runFrom (CallState.step false) (start oneTask)
        ([.call 1 2 0 [] none 0, .send 1 false true, .park 1] ++ pumpMessage false ++
          pumpMessage false)) := by
  decide +kernel

end CallState

end Nonux.Framework
