import Nonux.Framework.HoldQueues
import Nonux.Framework.RouteEdges

/-!
# What the router decides

One attempt to send a message looks up the connection, checks the capabilities, and then does one of
few things with the message. `Routed` lists them, each with what was found on the way;
`route_routed` says that the list is complete. What is proved of the router elsewhere goes by cases
on it. `Dequeued` and `Handled` are the same for taking a message from an inbox and for finding who
handles it.
-/

namespace Nonux.Framework

open Nonux.Lib Function

/-- A connection that a message may take: it is the one the router finds, and the sender may pass on
what the message carries. -/
structure Hop (r : Registry) (src dst : SlotId) (m : IpcMessage) (c : ConnId) : Prop where
  edge : findEdge r src dst = some c
  caps : nxIpcScanSendCaps r src m = .ok ()

/-- **What an attempt comes to.** -/
inductive Routed (s : Ipc) (src dst : SlotId) (m : IpcMessage) : Ipc × Ipc.Route → Prop
  | refused (e : Err) : Routed s src dst m (s.tell (.refused m), .failed e)
  /-- There is a queue for the two slots. -/
  | held {c : ConnId} {holds : List HoldEntry} (hop : Hop s.reg src dst m c)
      (hpaused : s.reg.nxSlotPauseState (some dst) ≠ .none) (hpolicy : (s.reg.conn c).policy = .queue)
      (hholds : Ipc.holdEnqueue src dst m s.holds = some holds) :
      Routed s src dst m ({ s with holds }.tell (.held src dst m), .accepted)
  /-- There is none yet. -/
  | heldFirst {c : ConnId} (hop : Hop s.reg src dst m c)
      (hpaused : s.reg.nxSlotPauseState (some dst) ≠ .none)
      (hpolicy : (s.reg.conn c).policy = .queue)
      (hholds : Ipc.holdEnqueue src dst m s.holds = none) : Routed s src dst m
        ({ s with holds := ⟨s.nextHold, src, dst, [m]⟩ :: s.holds, nextHold := s.nextHold + 1 }.tell
          (.held src dst m), .accepted)
  | redirect {c : ConnId} (hop : Hop s.reg src dst m c)
      (hpaused : s.reg.nxSlotPauseState (some dst) ≠ .none)
      (hpolicy : (s.reg.conn c).policy = .redirect) :
      Routed s src dst m (s, .redirect (s.reg.slot dst).fallback)
  | invoked {c : ConnId} (hop : Hop s.reg src dst m c)
      (hnone : s.reg.nxSlotPauseState (some dst) = .none) (hmode : (s.reg.conn c).mode = .sync) :
      Routed s src dst m (s.tell (.invoked src dst m), .invoke)
  | queued {c : ConnId} (hop : Hop s.reg src dst m c) (hnone : s.reg.nxSlotPauseState (some dst) = .none)
      (hmode : (s.reg.conn c).mode ≠ .sync) (hhosted : s.hosted = true) :
      Routed s src dst m
        ({ s with inbox := update s.inbox dst (some ((s.inbox dst).getD [] ++ [m])) }.tell
          (.queued src dst m), .accepted)
  | dispatched {c : ConnId} (hop : Hop s.reg src dst m c)
      (hnone : s.reg.nxSlotPauseState (some dst) = .none) (hmode : (s.reg.conn c).mode ≠ .sync)
      (hhosted : s.hosted = false) :
      Routed s src dst m ({ s with dispatcher := s.dispatcher ++ [m] }.tell (.queued src dst m),
        .accepted)

variable {s : Ipc} {src dst : SlotId} {m : IpcMessage} {c : ConnId}

theorem hold_routed (hop : Hop s.reg src dst m c) (hpaused : s.reg.nxSlotPauseState (some dst) ≠ .none)
    (hpolicy : (s.reg.conn c).policy = .queue) (calloc : Bool) :
    Routed s src dst m (s.hold src dst m calloc) := by
  rw [Ipc.hold]
  cases hholds : Ipc.holdEnqueue src dst m s.holds with
  | some holds => exact .held hop hpaused hpolicy hholds
  | none =>
    dsimp only
    split_ifs
    · exact .refused _
    · exact .heldFirst hop hpaused hpolicy hholds

theorem enqueue_routed (hop : Hop s.reg src dst m c) (hnone : s.reg.nxSlotPauseState (some dst) = .none)
    (hmode : (s.reg.conn c).mode ≠ .sync) (calloc : Bool) :
    Routed s src dst m (s.enqueue src dst m calloc) := by
  rw [Ipc.enqueue]
  split_ifs with hhosted
  · exact .dispatched hop hnone hmode hhosted
  · exact .refused _
  · exact .queued hop hnone hmode (by simpa using hhosted)

/-- **The list is complete.** -/
theorem route_routed (s : Ipc) (src dst : SlotId) (m : IpcMessage) (calloc : Bool) :
    Routed s src dst m (s.route src dst m calloc) := by
  rw [Ipc.route]
  cases hedge : findEdge s.reg src dst with
  | none => exact .refused _
  | some c =>
    cases hcaps : nxIpcScanSendCaps s.reg src m with
    | error e => exact .refused _
    | ok u =>
      have hop : Hop s.reg src dst m c := ⟨hedge, hcaps⟩
      dsimp only
      split_ifs with hpaused hmode
      · cases hpolicy : (s.reg.conn c).policy with
        | queue => exact hold_routed hop hpaused hpolicy calloc
        | reject => exact .refused _
        | redirect => exact .redirect hop hpaused hpolicy
      · exact .invoked hop (not_not.mp hpaused) hmode
      · exact enqueue_routed hop (not_not.mp hpaused) hmode calloc

/-! ### Taking a message from an inbox -/

/-- What is in the inbox of a slot. -/
def Ipc.inboxOf (s : Ipc) (slot : SlotId) : List IpcMessage := (s.inbox slot).getD []

/-- **What taking a message comes to.** -/
inductive Dequeued (s : Ipc) (slot : SlotId) : Ipc × Option IpcMessage → Prop
  | empty (hempty : s.inboxOf slot = []) : Dequeued s slot (s, none)
  | taken {m : IpcMessage} {q : List IpcMessage} (hinbox : s.inboxOf slot = m :: q) :
      Dequeued s slot ({ s with inbox := update s.inbox slot (some q) }.tell (.taken slot m), some m)

theorem dequeue_dequeued (s : Ipc) (slot : SlotId) : Dequeued s slot (s.dequeue slot) := by
  rw [Ipc.dequeue]
  split
  next m q hbox => exact .taken (by rw [Ipc.inboxOf, hbox, Option.getD_some])
  next hnone =>
    refine .empty ?_
    rw [Ipc.inboxOf]
    cases hbox : s.inbox slot with
    | none => rfl
    | some q =>
      cases q with
      | nil => rfl
      | cons m q => exact absurd hbox (hnone m q)

theorem inboxOf_update {ev : IpcEvent} (q : List IpcMessage) (slot : SlotId) :
    ({ s with inbox := update s.inbox dst (some q) }.tell ev).inboxOf slot =
      if slot = dst then q else s.inboxOf slot := by
  split_ifs with hslot
  · simp [hslot, Ipc.inboxOf, Ipc.tell]
  · simp [hslot, Ipc.inboxOf, Ipc.tell]

/-- What is in an inbox after a message was put in one. -/
theorem mem_inboxOf_concat {ev : IpcEvent} {slot : SlotId} {m' : IpcMessage}
    (h : m' ∈ ({ s with inbox := update s.inbox dst (some ((s.inbox dst).getD [] ++ [m])) }.tell
      ev).inboxOf slot) :
    m' ∈ s.inboxOf slot ∨ slot = dst ∧ m' = m := by
  rw [inboxOf_update] at h
  split_ifs at h with hslot
  · subst hslot
    exact (List.mem_append.mp h).imp_right fun hm => ⟨rfl, List.mem_singleton.mp hm⟩
  · exact .inl h

/-- Taking a message puts none in an inbox. -/
theorem Dequeued.inboxOf_subset {slot : SlotId} {res : Ipc × Option IpcMessage}
    (h : Dequeued s slot res) (slot' : SlotId) : res.1.inboxOf slot' ⊆ s.inboxOf slot' := by
  cases h with
  | empty => exact List.Subset.refl _
  | taken hinbox =>
    rw [inboxOf_update]
    split_ifs with hslot
    · exact hslot ▸ hinbox ▸ List.subset_cons_self _ _
    · exact List.Subset.refl _

/-! ### Finding the handler -/

/-- **Who gets a message**: the component in the slot, if it handles messages. -/
inductive Handled (s : Ipc) (dst : SlotId) (m : IpcMessage) : Ipc × Option CompId → Prop
  | nobody (hno : ∀ c, (s.reg.slot dst).active = some c → CompOp.handleMsg ∉ (s.reg.comp c).ops) :
      Handled s dst m (s.tell (.unhandled dst m), none)
  | component {c : CompId} (hactive : (s.reg.slot dst).active = some c)
      (hop : CompOp.handleMsg ∈ (s.reg.comp c).ops) :
      Handled s dst m (s.tell (.delivered dst c m), some c)

theorem handlerFor_handled (s : Ipc) (dst : SlotId) (m : IpcMessage) :
    Handled s dst m (s.handlerFor dst m) := by
  rw [Ipc.handlerFor]
  split
  next hnone => exact .nobody fun c hactive => by simp [hnone] at hactive
  next c hactive =>
    split_ifs with hop
    · exact .component hactive hop
    · exact .nobody fun c' hactive' => Option.some.inj (hactive.symm.trans hactive') ▸ hop

/-! ### What steps leave alone -/

/-- The parts of the state that no step on a message touches. -/
structure Frame (s s' : Ipc) : Prop where
  reg : s'.reg = s.reg
  hosted : s'.hosted = s.hosted
  nextMessage : s'.nextMessage = s.nextMessage
  claimed : s'.claimed = s.claimed
  budget : s'.budget = s.budget

theorem Routed.frame {res : Ipc × Ipc.Route} (h : Routed s src dst m res) : Frame s res.1 := by
  cases h <;> exact ⟨rfl, rfl, rfl, rfl, rfl⟩

theorem Dequeued.frame {slot : SlotId} {res : Ipc × Option IpcMessage} (h : Dequeued s slot res) :
    Frame s res.1 := by
  cases h <;> exact ⟨rfl, rfl, rfl, rfl, rfl⟩

theorem Sought.frame {res : Ipc × Bool} (h : Sought s res) : Frame s res.1 := by
  cases h <;> exact ⟨rfl, rfl, rfl, rfl, rfl⟩

theorem HoldDequeued.frame {res : Ipc × Option IpcMessage} (h : HoldDequeued s res) : Frame s res.1 := by
  cases h <;> exact ⟨rfl, rfl, rfl, rfl, rfl⟩

theorem Handled.frame {res : Ipc × Option CompId} (h : Handled s dst m res) : Frame s res.1 := by
  cases h <;> exact ⟨rfl, rfl, rfl, rfl, rfl⟩

theorem freeEntry_frame (s : Ipc) : Frame s s.freeEntry := by
  rw [Ipc.freeEntry]
  split <;> exact ⟨rfl, rfl, rfl, rfl, rfl⟩

/-- No step changes the build, and only calls of the registry change the registry. -/
theorem exec_frame (answer : Bool) (s : Ipc) (a : IpcAtom) :
    (s.exec answer a).1.hosted = s.hosted ∧
    ((∀ call, a ≠ .reg call) → (s.exec answer a).1.reg = s.reg) := by
  cases a with
  | reg call => exact ⟨rfl, fun hne => absurd rfl (hne call)⟩
  | route src dst m => exact ⟨(route_routed s src dst m answer).frame.hosted,
      fun _ => (route_routed s src dst m answer).frame.reg⟩
  | handlerFor dst m => exact ⟨(handlerFor_handled s dst m).frame.hosted,
      fun _ => (handlerFor_handled s dst m).frame.reg⟩
  | dequeue slot => exact ⟨(dequeue_dequeued s slot).frame.hosted,
      fun _ => (dequeue_dequeued s slot).frame.reg⟩
  | flushSeek => exact ⟨(flushSeek_sought s).frame.hosted, fun _ => (flushSeek_sought s).frame.reg⟩
  | holdDequeue => exact ⟨(holdDequeue_dequeued s).frame.hosted,
      fun _ => (holdDequeue_dequeued s).frame.reg⟩
  | freeEntry => exact ⟨(freeEntry_frame s).hosted, fun _ => (freeEntry_frame s).reg⟩
  | _ => exact ⟨rfl, fun _ => rfl⟩

/-- The build is the same throughout a run. -/
theorem runs_hosted {ok : Ipc → IpcAtom → Prop} {chk : Bool} {α : Type} {p : IpcM α} {s' : Ipc}
    {tr : ipc.Trace} {a : α} (h : CallSys.Runs ipc ok chk p s tr s' a) : s'.hosted = s.hosted := by
  refine h.keeps (R := fun s s' : Ipc => s'.hosted = s.hosted) (fun _ => rfl)
    (fun _ _ _ h h' => Eq.trans h' h) ?_
  rintro s o s' r ⟨answer, heq⟩
  have hsame := (exec_frame answer s o).1
  rwa [heq] at hsame

/-! ### Capabilities -/

/-- The sender of a message has a connection to every slot it passes on. -/
theorem Hop.slotRef {r : Registry} (h : Hop r src dst m c) {cap : IpcCap} (hcap : cap ∈ m.caps)
    (hkind : cap.kind = .slotRef) : ∃ t, cap.slotRef = some t ∧ (findEdge r src t).isSome := by
  have hall := h.caps
  rw [nxIpcScanSendCaps] at hall
  split_ifs at hall with hscan
  have hone := List.all_eq_true.mp hscan cap hcap
  simpa [hkind, Option.any_eq_true] using hone

end Nonux.Framework
