import Nonux.Framework.SendSafety

/-!
# Blocking calls (`framework/slot_call.c`)

A task can send a message and wait for the reply. The message does not go through the router:
`nx_slot_call_blocking` does what the router does once more, and hands the message to the
dispatcher. It looks up the connection from the caller's slot only to learn what to do about a slot
that is paused. If the slot is not paused, nobody asks whether there is a connection
(`blocking_call_unconnected`), while `nx_ipc_send` asks on every attempt. `accepted_over_edge_iff`
says when both keep to connections.

The registry may change while the task waits for the slot to be resumed, and while the hooks run.
-/

namespace Nonux.Framework

open Nonux.Lib CallSys

/-! ### The model -/

/-- What `struct nx_task` has for blocking calls. A null buffer is `none`. -/
structure CallerTask where
  callerSlot : SlotId
  callerSlotActive : Bool := true
  inFlightReplyBuf : Option ℕ := none
  inFlightReplyBufLen : ℕ := 0
  inFlightReplyRc : ℤ := 0
  deriving DecidableEq, Repr

/-- The arguments of the call, and the task that makes it. -/
structure CallArgs where
  slot : Option SlotId
  msg : Option IpcMessage
  replyBuf : Option ℕ := none
  replyBufLen : ℕ := 0
  task : Option CallerTask
  deriving DecidableEq, Repr

/-- What happens while the call runs: the registry each time the task is woken up to look at the
slot again, what the hooks say and leave behind, and the result that comes with the reply, if it
comes. -/
structure Meanwhile where
  wakes : List Registry := []
  hook : Registry → Bool × Registry := fun r => (false, r)
  reply : Option ℤ := none

/-- A message with `NX_MSG_FLAG_REPLY_REQUESTED`, set or not. -/
structure PostedMessage where
  msg : IpcMessage
  replyRequested : Bool
  deriving DecidableEq, Repr

/-- What comes of the call: its result, unless the task is still waiting; the task; and what the
dispatcher got. -/
structure CallOutcome where
  rc : Option ℤ
  task : Option CallerTask
  queued : List PostedMessage := []
  deriving DecidableEq, Repr

/-- `find_outgoing_edge`. -/
def findOutgoingEdge (r : Registry) (src dst : Option SlotId) : Option ConnId :=
  match src, dst with
  | some src, some dst => (r.nxSlotForeachDependency (some src)).find? fun c => decide
      ((r.conn c).toSlot = dst)
  | _, _ => none

/-- How the wait for a slot that is paused ends. -/
inductive Waited where
  | go (r : Registry)
  | failed (e : Err)
  | parked

/-- The loop on the pause state of the slot. -/
def awaitResume (src slot : SlotId) (r : Registry) (wakes : List Registry) : Waited :=
  if r.nxSlotPauseState (some slot) = .none then .go r
  else
    match findOutgoingEdge r (some src) (some slot) with
    | none => .failed .enoent
    | some edge =>
      match (r.conn edge).policy with
      | .reject => .failed .ebusy
      | .redirect => .failed .enoent
      | .queue =>
        match wakes with
        | [] => .parked
        | r' :: wakes => awaitResume src slot r' wakes

/-- `nx_dispatcher_enqueue`. -/
def nxDispatcherEnqueue (queue : List PostedMessage) (p : PostedMessage) : List PostedMessage × Status :=
  if p.msg.dstSlot = none then (queue, .error .einval) else (queue ++ [p], .ok ())

/-- The way out with an error once the reply buffer is set. -/
def CallerTask.cleared (t : CallerTask) : CallerTask :=
  { t with inFlightReplyBuf := none, inFlightReplyBufLen := 0 }

/-- `nx_slot_call_blocking`, after the checks of the arguments. -/
def callBlocking (r : Registry) (slot src : SlotId) (m : IpcMessage) (args : CallArgs)
    (task : CallerTask) (meanwhile : Meanwhile) : CallOutcome :=
  match awaitResume src slot r meanwhile.wakes with
  | .parked => ⟨none, some task, []⟩
  | .failed e => ⟨some e.code, some task, []⟩
  | .go r =>
    let task := { task with
      inFlightReplyBuf := args.replyBuf, inFlightReplyBufLen := args.replyBufLen, inFlightReplyRc := 0 }
    let (abort, r) := meanwhile.hook r
    if abort then ⟨some Err.eabort.code, some task.cleared, []⟩
    else
      match nxIpcScanSendCaps r src m with
      | .error e => ⟨some e.code, some task.cleared, []⟩
      | .ok () =>
        match nxDispatcherEnqueue [] ⟨m, true⟩ with
        | (queue, .error e) => ⟨some e.code, some task.cleared, queue⟩
        | (queue, .ok ()) =>
          match meanwhile.reply with
          | none => ⟨none, some task, queue⟩
          | some rc => ⟨some rc, some { task.cleared with inFlightReplyRc := 0 }, queue⟩

/-- `nx_slot_call_blocking`. -/
def nxSlotCallBlocking (r : Registry) (args : CallArgs) (meanwhile : Meanwhile) : CallOutcome :=
  let einval : CallOutcome := ⟨some Err.einval.code, args.task, []⟩
  match args.slot, args.msg with
  | some slot, some m =>
    if m.dstSlot ≠ some slot then einval
    else
      match m.srcSlot, args.task with
      | some src, some task =>
        if task.callerSlotActive = false then einval
        else if src ≠ task.callerSlot then einval
        else if task.inFlightReplyBuf ≠ none then einval
        else callBlocking r slot src m args task meanwhile
      | _, _ => einval
  | _, _ => einval

/-! ### Where messages are accepted -/

/-- The router accepts a message from one slot for another: it puts it on a queue, or has it
handled. -/
inductive AcceptsFor (src dst : SlotId) : Asked Ipc IpcAtom.Res IpcProc.Res IpcCallback.Res → Prop
  | accepted {m : IpcMessage} {s s' : Ipc} :
      AcceptsFor src dst ⟨.atom (.route src dst m), Ipc.Route.accepted, s, s'⟩
  | invoke {m : IpcMessage} {s s' : Ipc} :
      AcceptsFor src dst ⟨.atom (.route src dst m), Ipc.Route.invoke, s, s'⟩

/-- What is accepted comes from the source of the message, which has a connection to where it
goes. -/
def AcceptedOverEdge (m : IpcMessage) (e : Asked Ipc IpcAtom.Res IpcProc.Res IpcCallback.Res) : Prop :=
  ∀ src dst, AcceptsFor src dst e → m.srcSlot = some src ∧ ∃ c, e.before.reg.IsEdge src dst c

variable {src : SlotId} {m : IpcMessage}

theorem Routed.acceptedOverEdge {s : Ipc} {dst : SlotId} {m' : IpcMessage} {res : Ipc × Ipc.Route}
    (h : Routed s src dst m' res) (hcons : Consistent s.reg) (hsrc : m.srcSlot = some src) :
    AcceptedOverEdge m ⟨.atom (.route src dst m'), res.2, s, res.1⟩ := by
  have hop : ∀ {c}, Hop s.reg src dst m' c → m.srcSlot = some src ∧ ∃ c, s.reg.IsEdge src dst c :=
    fun hop => ⟨hsrc, _, isEdge_of_findEdge hcons hop.edge⟩
  intro src' dst' hacc
  cases h with
  | refused e => cases hacc
  | redirect => cases hacc
  | held h | heldFirst h | invoked h | queued h | dispatched h => cases hacc; exact hop h

/-- **The router** accepts messages over connections only, whatever hooks and handlers do. -/
theorem nxIpcSend_acceptedOverEdge {ok : Ipc → IpcAtom → Prop} {chk : Bool} {s s' : Ipc}
    {tr : ipc.Trace} {rc : ℤ} (hcons : Consistent s.reg)
    (hrun : Runs ipc ok chk (ipcBody (.nxIpcSend m)) s tr s' rc) :
    ∀ e ∈ tr, AcceptedOverEdge m e := by
  have hleaves : Prog.All (Leaves ok consistency chk (fun s => Consistent s.reg) (AcceptedOverEdge m))
      (doSend nxIpcRedirectDepthMax m) := by
    refine all_doSend ?_ ?_ ?_ ?_ _ ?_
    · exact fun c s s' r hs hrely => ⟨hrely hs, nofun⟩
    · exact fun dst m s s' r hs _ hstep => ⟨staysConsistent_step hstep hs, nofun⟩
    · exact fun m s s' r hs _ hstep => ⟨staysConsistent_step hstep hs, nofun⟩
    · exact fun m s s' r hs _ hstep => ⟨staysConsistent_step hstep hs, nofun⟩
    · rintro src dst m' hsrc - s s' r hs - ⟨answer, heq⟩
      refine ⟨staysConsistent_step ⟨answer, heq⟩ hs, ?_⟩
      have hrouted := (route_routed s src dst m' answer).acceptedOverEdge hs hsrc
      rwa [show s.route src dst m' answer = (s', r) from heq] at hrouted
  exact (hrun.sound consistency_kept (wp_of_leaves hleaves hcons)).2

/-! ### Blocking calls -/

/-- The arguments pass the checks. -/
structure CallOk (args : CallArgs) (slot src : SlotId) (m : IpcMessage) (task : CallerTask) : Prop where
  slotArg : args.slot = some slot
  msgArg : args.msg = some m
  dst : m.dstSlot = some slot
  source : m.srcSlot = some src
  current : args.task = some task
  active : task.callerSlotActive = true
  caller : src = task.callerSlot
  idle : task.inFlightReplyBuf = none

variable {r : Registry}

/-- The wait ends at once if the slot is not paused, and otherwise there was a connection. -/
theorem awaitResume_eq_go {slot : SlotId} {r' : Registry} {wakes : List Registry}
    (h : awaitResume src slot r wakes = .go r') :
    r.nxSlotPauseState (some slot) = .none ∧ r' = r ∨
      r.nxSlotPauseState (some slot) ≠ .none ∧ (findEdge r src slot).isSome := by
  unfold awaitResume at h
  split at h
  next hnone => exact .inl ⟨hnone, (Waited.go.inj h).symm⟩
  next hpaused =>
    split at h
    next => cases h
    next edge hedge => exact .inr ⟨hpaused, Option.isSome_of_mem hedge⟩

variable {args : CallArgs}

theorem CallOk.nxSlotCallBlocking_eq {slot : SlotId} {task : CallerTask}
    (h : CallOk args slot src m task) (r : Registry) (meanwhile : Meanwhile) :
    nxSlotCallBlocking r args meanwhile = callBlocking r slot src m args task meanwhile := by
  simp [nxSlotCallBlocking, h.slotArg, h.msgArg, h.dst, h.source, h.current, h.active, h.caller, h.idle]

variable {meanwhile : Meanwhile}

/-- Without that the dispatcher gets nothing. -/
theorem queued_eq_nil (h : ∀ slot src m task, ¬ CallOk args slot src m task) :
    (nxSlotCallBlocking r args meanwhile).queued = [] := by
  unfold nxSlotCallBlocking
  split
  next slot m hslot hm =>
    split_ifs with hdst
    · rfl
    split
    next src task hsrc htask =>
      split_ifs with hactive hcaller hidle
      · rfl
      · rfl
      · rfl
      · refine absurd ⟨hslot, hm, ?_, hsrc, htask, ?_, ?_, ?_⟩ (h slot src m task)
        · exact not_not.mp hdst
        · exact Bool.eq_true_of_not_eq_false hactive
        · exact not_not.mp hcaller
        · exact not_not.mp hidle
    next => rfl
  next => rfl

theorem mem_callBlocking_queued_iff {slot : SlotId} {task : CallerTask}
    (hdst : m.dstSlot = some slot) {p : PostedMessage} :
    p ∈ (callBlocking r slot src m args task meanwhile).queued ↔
      ∃ r', awaitResume src slot r meanwhile.wakes = .go r' ∧ (meanwhile.hook r').1 = false ∧
        nxIpcScanSendCaps (meanwhile.hook r').2 src m = .ok () ∧ p = ⟨m, true⟩ := by
  unfold callBlocking
  cases hwait : awaitResume src slot r meanwhile.wakes with
  | parked => simp
  | failed e => simp
  | go r' =>
    cases habort : (meanwhile.hook r').1 with
    | true => simp [habort]
    | false =>
      cases hscan : nxIpcScanSendCaps (meanwhile.hook r').2 src m with
      | error e => simp [habort, hscan]
      | ok u =>
        cases hreply : meanwhile.reply with
        | none | some rc => simp [habort, hscan, nxDispatcherEnqueue, hdst]

/-- **What the dispatcher gets** from a call that passes the checks, once the slot is not paused, if
the hooks let it pass and the capabilities are those of the caller. -/
theorem mem_queued_iff {p : PostedMessage} :
    p ∈ (nxSlotCallBlocking r args meanwhile).queued ↔
      ∃ slot src m task, CallOk args slot src m task ∧
      ∃ r', awaitResume src slot r meanwhile.wakes = .go r' ∧
        (meanwhile.hook r').1 = false ∧ nxIpcScanSendCaps (meanwhile.hook r').2 src m = .ok () ∧
        p = ⟨m, true⟩ := by
  constructor
  · intro hp
    by_cases hok : ∃ slot src m task, CallOk args slot src m task
    · obtain ⟨slot, src, m, task, hok⟩ := hok
      rw [hok.nxSlotCallBlocking_eq, mem_callBlocking_queued_iff hok.dst] at hp
      exact ⟨slot, src, m, task, hok, hp⟩
    · push Not at hok
      rw [queued_eq_nil hok] at hp
      cases hp
  · rintro ⟨slot, src, m, task, hok, hrest⟩
    rw [hok.nxSlotCallBlocking_eq, mem_callBlocking_queued_iff hok.dst]
    exact hrest

/-- A call that gets as far as the dispatcher, to a slot that is not paused, is from a slot with a
connection to it. -/
def CallConnected (r : Registry) (args : CallArgs) (meanwhile : Meanwhile) : Prop :=
  ∀ slot src m task, CallOk args slot src m task → r.nxSlotPauseState (some slot) = .none →
    (meanwhile.hook r).1 = false → nxIpcScanSendCaps (meanwhile.hook r).2 src m = .ok () →
      ∃ c, r.IsEdge src slot c

/-- A blocking call keeps to connections exactly if it is one of those. -/
theorem nxSlotCallBlocking_edge_iff (hcons : Consistent r) (args : CallArgs) (meanwhile : Meanwhile) :
    (∀ p ∈ (nxSlotCallBlocking r args meanwhile).queued, ∀ src dst, p.msg.srcSlot = some src →
      p.msg.dstSlot = some dst → ∃ c, r.IsEdge src dst c) ↔ CallConnected r args meanwhile := by
  constructor
  · intro h slot src m task hok hnone hhook hscan
    have hgo : awaitResume src slot r meanwhile.wakes = .go r := by
      unfold awaitResume
      exact if_pos hnone
    exact h _ (mem_queued_iff.mpr ⟨slot, src, m, task, hok, r, hgo, hhook, hscan, rfl⟩) src slot
      hok.source hok.dst
  · intro h p hp src' dst' hsrc hdst
    obtain ⟨slot, src, m, task, hok, r', hgo, hhook, hscan, rfl⟩ := mem_queued_iff.mp hp
    obtain rfl : src = src' := Option.some.inj (hok.source.symm.trans hsrc)
    obtain rfl : slot = dst' := Option.some.inj (hok.dst.symm.trans hdst)
    rcases awaitResume_eq_go hgo with ⟨hnone, rfl⟩ | ⟨-, hedge⟩
    · exact h slot src m task hok hnone hhook hscan
    · exact (findEdge_isSome_iff hcons).mp hedge

/-- **Both ways of sending keep to connections exactly if such calls have one.** The router does in
any case, whatever hooks and handlers do. -/
theorem accepted_over_edge_iff {ok : Ipc → IpcAtom → Prop} {chk : Bool} {m : IpcMessage}
    {s s' : Ipc} {tr : ipc.Trace} {rc : ℤ} (hcons : Consistent s.reg)
    (hrun : Runs ipc ok chk (ipcBody (.nxIpcSend m)) s tr s' rc) (args : CallArgs)
    (meanwhile : Meanwhile) :
    (∀ e ∈ tr, AcceptedOverEdge m e) ∧
    (∀ p ∈ (nxSlotCallBlocking s.reg args meanwhile).queued, ∀ src dst,
      p.msg.srcSlot = some src → p.msg.dstSlot = some dst → ∃ c, s.reg.IsEdge src dst c) ↔
      CallConnected s.reg args meanwhile :=
  (and_iff_right (nxIpcSend_acceptedOverEdge hcons hrun)).trans
    (nxSlotCallBlocking_edge_iff hcons args meanwhile)

/-- Two slots with components in them, and then some calls. -/
def twoSlots (calls : List IpcCall) : Ipc :=
  evalState quiet 200 (makeCalls (plugIn 1 7 ++ plugIn 2 8 ++ calls) ()) namedBoot

/-- Slot `1` is that of a task, which calls slot `2`. -/
def callArgs : CallArgs :=
  { slot := some 2, msg := some ⟨0, some 1, some 2, []⟩, replyBuf := some 4096, replyBufLen := 8,
    task := some { callerSlot := 1 } }

theorem accepted_over_edge_connected :
    let s := twoSlots [connect 1 2 .async .queue]
    ∃ tr s', Runs ipc (fun _ _ => True) true (ipcBody (.nxIpcSend ⟨0, some 1, some 2, []⟩)) s tr s'
      nxOk ∧ (∀ e ∈ tr, AcceptedOverEdge ⟨0, some 1, some 2, []⟩ e) ∧
      (∀ p ∈ (nxSlotCallBlocking s.reg callArgs {}).queued, ∀ src dst,
        p.msg.srcSlot = some src → p.msg.dstSlot = some dst → ∃ c, s.reg.IsEdge src dst c) ∧
      s'.inboxOf 2 = [⟨0, some 1, some 2, []⟩] ∧
      (nxSlotCallBlocking s.reg callArgs {}).queued = [⟨⟨0, some 1, some 2, []⟩, true⟩] := by
  intro s
  obtain ⟨tr₀, hsetup⟩ : ∃ tr, Runs ipc (fun _ _ => True) true
    (makeCalls (plugIn 1 7 ++ plugIn 2 8 ++ [connect 1 2 .async .queue]) ()) namedBoot tr s () :=
    runs_driver 200 (by decide +kernel)
  have hcons : Consistent s.reg :=
    runs_consistent hsetup (show Consistent namedBoot.reg from consistent_boot _ _)
  obtain ⟨tr, hrun⟩ : ∃ tr, Runs ipc (fun _ _ => True) true
    (ipcBody (.nxIpcSend ⟨0, some 1, some 2, []⟩)) s tr
    (evalState quiet 50 (ipcBody (.nxIpcSend ⟨0, some 1, some 2, []⟩)) s) nxOk := runs_driver 50
      (by decide +kernel)
  have hconnected : CallConnected s.reg callArgs {} := by
    rintro slot src m task ⟨hslot, hmsg, -, hsrc, -, -, -, -⟩ - - -
    cases hslot
    cases hmsg
    cases hsrc
    exact (findEdge_isSome_iff hcons).mp (by decide +kernel)
  obtain ⟨hrouter, hblocking⟩ := (accepted_over_edge_iff hcons hrun callArgs {}).mpr hconnected
  exact ⟨tr, _, hrun, hrouter, hblocking, by decide +kernel, by decide +kernel⟩

/-- **A blocking call to a slot that is not paused needs no connection.** The router refuses the
message. -/
theorem blocking_call_unconnected :
    let s := twoSlots []
    (nxSlotCallBlocking s.reg callArgs {}).queued = [⟨⟨0, some 1, some 2, []⟩, true⟩] ∧
    (∀ c, ¬ s.reg.IsEdge 1 2 c) ∧
      ∃ tr s', Runs ipc (fun _ _ => True) true (ipcBody (.nxIpcSend ⟨0, some 1, some 2, []⟩))
        s tr s' Err.enoent.code := by
  intro s
  obtain ⟨tr, hrun⟩ : ∃ tr, Runs ipc (fun _ _ => True) true
    (ipcBody (.nxIpcSend ⟨0, some 1, some 2, []⟩)) s tr
    (evalState quiet 50 (ipcBody (.nxIpcSend ⟨0, some 1, some 2, []⟩)) s) Err.enoent.code :=
    runs_driver 50 (by decide +kernel)
  have hnone : s.reg.connections = [] := by decide +kernel
  refine ⟨by decide +kernel, fun c hc => ?_, tr, _, hrun⟩
  have hmem := hc.1
  rw [hnone] at hmem
  cases hmem

end Nonux.Framework
