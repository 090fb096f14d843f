import Nonux.Framework.Dispatcher

/-!
# Draining a slot while others send (kernel build)

To pause a component on the kernel build, its slots are cut off, so that senders find them paused;
then the pauser waits until the count of the calls in flight is zero, and marks the slots as done. A
sender looks at the pause state first and raises the count later, when it puts its message on the
dispatcher's queue.

## The model

`DrainState` has the dispatcher (`DispState`, on the kernel build), the pause states with what the
pauser of each slot has seen, and the senders. A sender looks (`check`) and goes on (`go`): over a
synchronous connection it runs the handler itself, over any other it enqueues its message, both of
`nx_ipc_send` and of `nx_slot_call_blocking`. The pauser of a slot does `slot_cutoff_cb`,
`slot_drain_cb` in two steps, and `slot_done_cb`; all are interleaved in any way, also those of
several slots.

## What is proved

`no_handler_when_done`: if no sender is past its check when a pauser sees the count at zero, and no
reply is sent to a slot that has been drained, no handler runs at a slot that is done.
-/

namespace Nonux.Framework

open Nonux.Lib Function

/-- Where a sender is. -/
inductive SendStage where
  | out
  /-- It has found the slot not paused. -/
  | checked (req : Request) (sync : Bool)
  /-- It runs the handler, called over a synchronous connection. -/
  | handling (req : Request)
  deriving DecidableEq, Repr

/-- The slot that the sender has found not paused, or whose handler it runs. -/
def SendStage.target : SendStage → Option SlotId
  | .out => none
  | .checked req _ | .handling req => some req.dstSlot

/-- The slot whose handler the sender runs. -/
def SendStage.handles : SendStage → Option SlotId
  | .handling req => some req.dstSlot
  | _ => none

theorem target_of_handles {st : SendStage} {slot : SlotId} (h : st.handles = some slot) :
    st.target = some slot := by
  cases st with
  | handling req => exact h
  | _ => cases h

/-- The steps. -/
inductive DrainStep (τ : Type) where
  /-- A sender looks at the pause state, for a message over a connection of this mode. -/
  | check (t : τ) (req : Request) (mode : ConnMode)
  | go (t : τ)
  /-- The handler that the sender runs returns. -/
  | handled (t : τ)
  /-- `slot_cutoff_cb` -/
  | cut (slot : SlotId)
  /-- `slot_drain_cb`, the store of the pause state. -/
  | drain (slot : SlotId)
  /-- The loop of `slot_drain_cb` looks at the count. -/
  | look (slot : SlotId)
  /-- `slot_done_cb` -/
  | done (slot : SlotId)
  /-- `slot_resume_cb`, also of a rollback. What it sends again is sent by a sender. -/
  | resume (slot : SlotId)
  | pump
  | hookReturns (abort : Bool)
  | handlerReturns (rc : ℤ) (payload : List UInt8) (replyPayloadLen : ℕ)

/-- The dispatcher, the pauser of every slot, and the senders. -/
structure DrainState (τ : Type) where
  disp : DispState := {}
  pauseState : SlotId → SlotPauseState := fun _ => .none
  /-- The pauser has seen the count at zero. -/
  drained : SlotId → Bool := fun _ => false
  sender : τ → SendStage := fun _ => .out

namespace DrainState

variable {τ : Type} [DecidableEq τ]

/-- Store to the pause state, and to where the pauser is. -/
def setPause (s : DrainState τ) (slot : SlotId) (st : SlotPauseState) (drained : Bool) : DrainState τ :=
  { s with
    pauseState := update s.pauseState slot st
    drained := update s.drained slot drained }

def setSender (s : DrainState τ) (t : τ) (st : SendStage) : DrainState τ :=
  { s with sender := update s.sender t st }

def step (s : DrainState τ) : DrainStep τ → DrainState τ
  | .check t req mode =>
    -- A slot that is paused makes the sender hold its message, or give up.
    if s.sender t = .out ∧ s.pauseState req.dstSlot = .none then s.setSender t
      (.checked req (mode = .sync)) else s
  | .go t =>
    match s.sender t with
    | .checked req true => s.setSender t (.handling req)
    | .checked req false => { s.setSender t .out with disp := s.disp.step false (.enqueue req) }
    | _ => s
  | .handled t =>
    match s.sender t with
    | .handling _ => s.setSender t .out
    | _ => s
  | .cut slot => s.setPause slot .cutting false
  | .drain slot => if s.pauseState slot = .cutting then s.setPause slot .draining false else s
  | .look slot =>
    if s.pauseState slot = .draining ∧ s.disp.inFlight slot = 0 then
      s.setPause slot .draining true
    else s
  | .done slot =>
    if s.pauseState slot = .draining ∧ s.drained slot then s.setPause slot .done true else s
  | .resume slot => s.setPause slot .none false
  | .pump => { s with disp := s.disp.pump false }
  | .hookReturns abort => { s with disp := s.disp.hookReturns false abort }
  | .handlerReturns rc payload replyPayloadLen =>
      { s with disp := s.disp.handlerReturns rc payload replyPayloadLen }

/-- A handler of the slot's component runs: in the dispatcher, or in a sender. -/
def Runs (s : DrainState τ) (slot : SlotId) : Prop :=
  (∃ m ∈ s.disp.stage.inHandler, m.dstSlot = slot) ∨ ∃ t, (s.sender t).handles = some slot

instance [Fintype τ] (s : DrainState τ) (slot : SlotId) : Decidable (s.Runs slot) :=
  inferInstanceAs (Decidable (_ ∨ _))

/-- The conditions on a step: when the pauser of a slot sees the count at zero no sender is past its
check of the slot or runs its handler, and a reply is not sent to a slot that has been drained. -/
def Permitted (s : DrainState τ) : DrainStep τ → Prop
  | .look slot => s.pauseState slot = .draining → s.disp.inFlight slot = 0 →
      ∀ t, (s.sender t).target ≠ some slot
  | .pump => ∀ r ∈ s.disp.stage.built, s.drained r.dstSlot = false
  | _ => True

instance [Fintype τ] (s : DrainState τ) : DecidablePred s.Permitted
  | .look _ => inferInstanceAs (Decidable (_ → _ → ∀ _, _))
  | .pump => inferInstanceAs (Decidable (∀ r ∈ _, _))
  | .check .. | .go _ | .handled _ | .cut _ | .drain _ | .done _ | .resume _ | .hookReturns
      _ | .handlerReturns .. =>
    inferInstanceAs (Decidable True)

end DrainState

/-! ### The count of a slot -/

namespace DispState

variable {s : DispState} {slot : SlotId}

theorem lower_inFlight_eq_zero (h : s.inFlight slot = 0) (slot' : SlotId) :
    (s.lower slot').inFlight slot = 0 := by
  by_cases heq : slot = slot'
  · subst heq
    simp [lower, h]
  · simpa [lower, heq] using h

theorem enqueue_inFlight_eq_zero (h : s.inFlight slot = 0) {m : DispMsg} (hne : m.dstSlot ≠ slot) :
    (s.nxDispatcherEnqueue false m).inFlight slot = 0 := by
  simpa [nxDispatcherEnqueue, hne.symm] using h

/-- Nothing is counted for a slot any more, until a message is put on the queue for it. -/
theorem pump_inFlight_eq_zero (h : s.inFlight slot = 0)
    (hbuilt : ∀ r ∈ s.stage.built, r.dstSlot ≠ slot) : (s.pump false).inFlight slot = 0 := by
  unfold pump
  cases hst : s.stage with
  | idle =>
    cases hq : s.queue <;> exact h
  | aborted m | returned m rc => exact lower_inFlight_eq_zero h _
  | reply m rc =>
    dsimp only
    split
    · split <;> exact h
    · exact h
  | send m reply => exact enqueue_inFlight_eq_zero h (hbuilt reply (by simp [hst]))
  | free m =>
    dsimp only
    split <;> exact h
  | hook m | handler m | stopped m => exact h

/-- While the dispatcher runs a handler, the call is counted. -/
theorem Counts.pos_of_handler (h : s.Counts false) {m : DispMsg} (hm : m ∈ s.stage.inHandler) :
    0 < s.inFlight m.dstSlot := by
  rw [h m.dstSlot, List.countP_pos_iff]
  refine ⟨m, ?_, by simp⟩
  cases hst : s.stage with
  | handler m' =>
    have hm' : m = m' := by simpa [hst] using hm
    simp [calls, hst, hm']
  | _ => simp [hst] at hm

end DispState

/-! ### Runs -/

namespace DrainState

variable {τ : Type} [DecidableEq τ] {s : DrainState τ}

/-- What every permitted step keeps: a slot that has been drained is paused, no call is counted
there, and no sender is past its check of it. -/
structure Good (s : DrainState τ) : Prop where
  counts : s.disp.Counts false
  drained : ∀ slot, s.drained slot = true →
    s.disp.inFlight slot = 0 ∧ s.pauseState slot ≠ .none ∧ ∀ t, (s.sender t).target ≠ some slot
  done : ∀ slot, s.pauseState slot = .done → s.drained slot = true

omit [DecidableEq τ] in
/-- The pauser of a slot moves on. -/
theorem Good.setPause (h : s.Good) {slot : SlotId} {st : SlotPauseState} {drained : Bool}
    (hdrained : drained = true → s.disp.inFlight slot = 0 ∧ st ≠ .none ∧ ∀ t,
      (s.sender t).target ≠ some slot)
    (hdone : st = .done → drained = true) : (s.setPause slot st drained).Good := by
  refine ⟨h.counts, fun slot' hd => ?_, fun slot' hst => ?_⟩ <;>
    simp only [DrainState.setPause] at * <;> by_cases heq : slot' = slot
  · subst heq
    rw [update_self] at hd ⊢
    exact hdrained hd
  · rw [update_of_ne heq] at hd ⊢
    exact h.drained slot' hd
  · subst heq
    rw [update_self] at hst ⊢
    exact hdone hst
  · rw [update_of_ne heq] at hst ⊢
    exact h.done slot' hst

/-- A sender moves on. -/
theorem Good.setSender (h : s.Good) {t : τ} {st : SendStage}
    (hst : ∀ slot, st.target = some slot → (s.sender t).target = some slot ∨ s.pauseState slot = .none) :
    (s.setSender t st).Good := by
  refine ⟨h.counts, fun slot hd => ?_, h.done⟩
  obtain ⟨hzero, hpaused, hnobody⟩ := h.drained slot hd
  refine ⟨hzero, hpaused, fun u hu => ?_⟩
  by_cases hut : u = t
  · subst hut
    exact (hst slot (by simpa [DrainState.setSender] using hu)).elim (hnobody u) hpaused
  · exact hnobody u (by simpa [DrainState.setSender, hut] using hu)

omit [DecidableEq τ] in
/-- The dispatcher moves on, and counts nothing more at slots that have been drained. -/
theorem Good.setDisp (h : s.Good) {d : DispState} (hmoves : DispMoves false s.disp d)
    (hzero : ∀ slot, s.drained slot = true → s.disp.inFlight slot = 0 → d.inFlight slot = 0) :
    Good { s with disp := d } :=
  ⟨h.counts.moves hmoves,
    fun slot hd => ⟨hzero slot hd (h.drained slot hd).1, (h.drained slot hd).2⟩, h.done⟩

theorem Good.go (h : s.Good) (t : τ) : (s.step (.go t)).Good := by
  simp only [DrainState.step]
  split
  · rename_i req hst
    exact h.setSender fun slot htarget => .inl (by rw [hst]; exact htarget)
  · rename_i req hst
    refine (@Good.setSender _ _ s h t .out fun slot htarget => by cases htarget).setDisp
      (DispState.step_moves (.enqueue req)) fun slot hd hzero => ?_
    -- The sender is past its check, so the slot is not one that has been drained.
    have hne : req.dstSlot ≠ slot := fun heq => (h.drained slot hd).2.2 t (by rw [hst, ← heq]; rfl)
    exact DispState.enqueue_inFlight_eq_zero hzero hne
  · exact h

theorem Good.step (h : s.Good) {a : DrainStep τ} (hok : s.Permitted a) : (s.step a).Good := by
  cases a with
  | check t req mode =>
    simp only [DrainState.step]
    split_ifs with hcheck
    · exact h.setSender fun slot htarget => .inr (Option.some_inj.mp htarget ▸ hcheck.2)
    · exact h
  | go t => exact h.go t
  | handled t =>
    simp only [DrainState.step]
    split
    · exact h.setSender fun slot htarget => by cases htarget
    · exact h
  | cut slot => exact h.setPause (fun hd => by cases hd) fun hst => by cases hst
  | drain slot =>
    simp only [DrainState.step]
    split_ifs with hcut
    · exact h.setPause (fun hd => by cases hd) fun hst => by cases hst
    · exact h
  | look slot =>
    simp only [DrainState.step]
    split_ifs with hlook
    · exact h.setPause (fun _ => ⟨hlook.2, by simp, hok hlook.1 hlook.2⟩) fun hst => by cases hst
    · exact h
  | done slot =>
    simp only [DrainState.step]
    split_ifs with hdone
    · obtain ⟨hzero, -, hnobody⟩ := h.drained slot hdone.2
      exact h.setPause (fun _ => ⟨hzero, by simp, hnobody⟩) fun _ => rfl
    · exact h
  | resume slot => exact h.setPause (fun hd => by cases hd) fun hst => by cases hst
  | pump =>
    refine h.setDisp DispState.pump_moves fun slot hd hzero => DispState.pump_inFlight_eq_zero hzero
      fun r hr heq => ?_
    have hfalse := hok r hr
    rw [heq, hd] at hfalse
    cases hfalse
  | hookReturns abort =>
    refine h.setDisp (DispState.step_moves (.hookReturns abort)) fun slot _ hzero => ?_
    simp only [DispState.hookReturns, Bool.false_eq_true, if_false]
    split
    · split_ifs <;> exact hzero
    · exact hzero
  | handlerReturns rc payload len =>
    refine h.setDisp (DispState.step_moves (.handlerReturns rc payload len)) fun slot _ hzero => ?_
    simp only [DispState.handlerReturns]
    split <;> exact hzero

omit [DecidableEq τ] in
theorem good_start : ({} : DrainState τ).Good :=
  ⟨fun _ => rfl, fun _ hd => (by cases hd), fun _ hst => (by cases hst)⟩

/-- **Done means quiet.** In any run whose steps are permitted, no handler runs at a slot that is
marked as done. -/
theorem no_handler_when_done (steps : List (DrainStep τ))
    (hok : RunOk DrainState.step Permitted {} steps) (slot : SlotId)
    (hdone : (runFrom DrainState.step ({} : DrainState τ) steps).pauseState slot = .done) :
    ¬ (runFrom DrainState.step {} steps).Runs slot := by
  have h : (runFrom DrainState.step ({} : DrainState τ) steps).Good :=
    hok.inv Good (fun _ _ hok h => h.step hok) good_start
  obtain ⟨hzero, -, hnobody⟩ := h.drained slot (h.done slot hdone)
  rintro (⟨m, hm, rfl⟩ | ⟨t, ht⟩)
  · exact (h.counts.pos_of_handler hm).ne' hzero
  · exact hnobody t (target_of_handles ht)

/-- A message for slot 1. -/
def toSlotOne : Request := { srcSlot := some 2, dstSlot := 1 }

/-- The pauser of a slot. -/
def pauseSlot (slot : SlotId) : List (DrainStep Unit) := [.cut slot, .drain slot, .look slot, .done slot]

/-- The slot is cut off when a sender is past its check; its message is handled before the count is
seen at zero. -/
def handledThenPaused : List (DrainStep Unit) :=
  [.check () toSlotOne .async, .cut 1, .go (), .drain 1, .look 1, .pump,
    .hookReturns false, .handlerReturns 0 [] 0, .pump,
    .look 1, .done 1]

theorem no_handler_when_done_paused :
    (runFrom DrainState.step ({} : DrainState Unit) handledThenPaused).pauseState 1 = .done ∧
      ¬ (runFrom DrainState.step {} handledThenPaused).Runs 1 :=
  ⟨by decide +kernel, no_handler_when_done handledThenPaused (by decide +kernel) 1 (by decide +kernel)⟩

/-- Slot 1 is marked as done, and a handler runs there. -/
def RunsWhenDone (s : DrainState Unit) : Prop := s.pauseState 1 = .done ∧ s.Runs 1

instance (s : DrainState Unit) : Decidable s.RunsWhenDone := inferInstanceAs (Decidable (_ ∧ _))

/-- **Handlers that run at a slot that is done.** A sender has looked before the slot is cut off,
and sends when it is done; a sender is in the handler already; a request of slot 1 itself is
answered when it is done. -/
theorem handler_runs_when_done :
    RunsWhenDone (runFrom DrainState.step {}
        ([.check () toSlotOne .async] ++ pauseSlot 1 ++ [.go (), .pump, .hookReturns false])) ∧
      RunsWhenDone (runFrom DrainState.step {} ([.check () toSlotOne .sync, .go ()] ++ pauseSlot 1)) ∧
      RunsWhenDone (runFrom DrainState.step {}
        ([.check () { srcSlot := some 1, dstSlot := 2, replyRequested := true } .async,
          .go ()] ++ pauseSlot 1 ++
          [.pump, .hookReturns false, .handlerReturns 0 [] 0, .pump, .pump, .pump, .pump,
            .pump, .hookReturns false])) := by
  decide +kernel

end DrainState

end Nonux.Framework
