import Nonux.Core.Waitq
import Nonux.Framework.SlotCall

/-!
# Callers that wait for a slot to be resumed (`resume_waitq`)

A blocking call over a connection that queues waits on the `resume_waitq` of a slot that is paused,
without a deadline. The comments there and in `registry.h` say that resuming the slot wakes all of
them. No call of `nx_waitq_wake_one` or `nx_waitq_wake_all` is on that queue: a resume, the way back
from a pause that failed, and `nx_recompose` store `NX_SLOT_PAUSE_NONE` and flush the hold queues,
and whoever waits goes on waiting (`caller_parked_after_resume`).

## The model

Tasks take turns (`ResumeState`). A task that has called the framework performs its program
(`FwCall.prog`) operation by operation, and hooks and components answer what they like; left alone,
it does what `FwCall.run` does (`runs_alone`). A task in a blocking call looks at the slot, and then
begins to wait, as in `awaitResume` (`awaitResume_eq`). The queues are those of `Sched`.

## What is proved

`nobody_parked_after_resume`: if nobody is on the queue of a slot whenever `NX_SLOT_PAUSE_NONE` is
stored to it, and nobody begins to wait after that, then nobody is on the queue when the call
returns.
-/

namespace Nonux.Framework

open Nonux.Lib Nonux.Core Function

/-! ### Looking at the slot -/

/-- What a caller makes of the pause state of the slot. -/
inductive PauseVerdict where
  | go
  | fail (e : Err)
  /-- To wait until the slot is resumed. -/
  | wait
  deriving DecidableEq, Repr

/-- One turn of the loop on the pause state, up to the wait. -/
def judgePause (r : Registry) (src slot : SlotId) : PauseVerdict :=
  if r.nxSlotPauseState (some slot) = .none then .go
  else
    match findOutgoingEdge r (some src) (some slot) with
    | none => .fail .enoent
    | some edge =>
      match (r.conn edge).policy with
      | .reject => .fail .ebusy
      | .redirect => .fail .enoent
      | .queue => .wait

/-- The loop takes such turns. -/
theorem awaitResume_eq (src slot : SlotId) (r : Registry) (wakes : List Registry) :
    awaitResume src slot r wakes =
      match judgePause r src slot, wakes with
      | .go, _ => .go r
      | .fail e, _ => .failed e
      | .wait, [] => .parked
      | .wait, r' :: wakes => awaitResume src slot r' wakes := by
  conv_lhs => unfold awaitResume
  unfold judgePause
  split_ifs with hnone
  · rfl
  · cases findOutgoingEdge r (some src) (some slot) with
    | none => rfl
    | some edge =>
      dsimp only
      cases (r.conn edge).policy with
      | reject => rfl
      | redirect => rfl
      | queue => cases wakes <;> rfl

/-! ### The tasks -/

/-- Where a task is. -/
inductive WaiterStage where
  | out
  /-- In a call of the framework, with what is left of it and the slots it has set back to
  `NX_SLOT_PAUSE_NONE`. -/
  | calling (rest : FwM ℤ) (cleared : List SlotId)
  /-- In a blocking call, before it looks at the slot. -/
  | blocking (src slot : SlotId)
  /-- It has looked, and is going to wait. -/
  | looked (src slot : SlotId)
  | parked (src slot : SlotId)

/-- The registry, the queues of the scheduler, and the tasks. The wait queues are the `resume_waitq`
of the slots. -/
structure ResumeState where
  reg : Registry
  sched : Sched SlotId := {}
  task : Tid → WaiterStage := fun _ => .out

/-- The steps. -/
inductive ResumeStep where
  /-- A task calls the framework. -/
  | begin (t : Tid) (call : FwCall)
  /-- A task performs the next operation of its call. What is asked of others is answered. -/
  | advance (t : Tid) (answer : (o : FwOp) → o.Res)
  | ret (t : Tid)
  /-- A task makes a blocking call. -/
  | call (t : Tid) (src slot : SlotId)
  | look (t : Tid)
  | park (t : Tid)
  /-- A task that has waited runs again. -/
  | rerun (t : Tid)
  /-- `nx_waitq_tick_deadlines`. -/
  | tick (exceeded : Tid → Bool)

/-- The slots that an operation sets back to `NX_SLOT_PAUSE_NONE`. -/
def FwOp.clears : FwOp → List SlotId
  | .reg (.slotSetPauseState (some s) .none) => [s]
  | _ => []

/-- What an operation does to the registry and is answered. -/
def performOn (r : Registry) (answer : (o : FwOp) → o.Res) : (o : FwOp) → Registry × o.Res
  | .registry => (r, r)
  | .reg call => (call.next r, (call.apply r).2)
  | o => (r, answer o)

/-- `nx_waitq_init`. -/
def nxWaitqInit (sched : Sched SlotId) (s : SlotId) : Sched SlotId :=
  { sched with waiters := update sched.waiters s [] }

/-- What an operation does to the queues: `nx_slot_register` makes that of the slot. -/
def queuesAfter (r : Registry) (sched : Sched SlotId) : FwOp → Sched SlotId
  | .reg (.slotRegister (some s) calloc) =>
    if ((RegCall.slotRegister (some s) calloc).apply r).2 = .ok () then nxWaitqInit sched s else sched
  | _ => sched

namespace ResumeState

def setTask (x : ResumeState) (t : Tid) (st : WaiterStage) : ResumeState :=
  { x with task := update x.task t st }

/-- The next operation of a call. -/
def advance (x : ResumeState) (t : Tid) (answer : (o : FwOp) → o.Res) : ResumeState :=
  match x.task t with
  | .calling (.op o k) cleared =>
    { reg := (performOn x.reg answer o).1
      sched := queuesAfter x.reg x.sched o
      task := update x.task t (.calling (k (performOn x.reg answer o).2) (cleared ++ o.clears)) }
  | _ => x

/-- The check of the pause state in `nx_slot_call_blocking`. -/
def look (x : ResumeState) (t : Tid) : ResumeState :=
  match x.task t with
  | .blocking src slot =>
    match judgePause x.reg src slot with
    -- What follows the loop is in `CallState`.
    | .go => x.setTask t .out
    | .fail _ => x.setTask t .out
    | .wait => x.setTask t (.looked src slot)
  | _ => x

/-- `nx_waitq_wait_with_deadline`, with a budget of 0. -/
def park (x : ResumeState) (t : Tid) : ResumeState :=
  match x.task t with
  | .looked src slot =>
    { x with sched := x.sched.register slot t false, task := update x.task t (.parked src slot) }
  | _ => x

def step (x : ResumeState) : ResumeStep → ResumeState
  | .begin t call =>
    match x.task t with
    | .out => x.setTask t (.calling call.prog [])
    | _ => x
  | .advance t answer => x.advance t answer
  | .ret t =>
    match x.task t with
    | .calling (.pure _) _ => x.setTask t .out
    | _ => x
  | .call t src slot =>
    match x.task t with
    | .out => x.setTask t (.blocking src slot)
    | _ => x
  | .look t => x.look t
  | .park t => x.park t
  | .rerun t =>
    match x.task t with
    | .parked src slot => if t ∈ x.sched.runqueue then x.setTask t (.blocking src slot) else x
    | _ => x
  | .tick exceeded => { x with sched := x.sched.nxWaitqTickDeadlines exceeded }

/-- The call of a task has come to its end: what it returns, and the slots that it has set back. -/
def returned (x : ResumeState) (t : Tid) : Option (ℤ × List SlotId) :=
  match x.task t with
  | .calling (.pure rc) cleared => some (rc, cleared)
  | _ => none

/-- The slots that the next operation of a task sets back. -/
def clearsNext (x : ResumeState) (t : Tid) : List SlotId :=
  match x.task t with
  | .calling (.op o _) _ => o.clears
  | _ => []

/-- The slot that a task is going to wait for. -/
def lookedAt (x : ResumeState) (t : Tid) : Option SlotId :=
  match x.task t with
  | .looked _ slot => some slot
  | _ => none

end ResumeState

/-! ### A call that is left alone -/

/-- An operation does what it does in `graphStep`. -/
theorem performOn_eq (w : World) (o : FwOp) :
    performOn w.reg (fun o => w.answers o 0) o = ((graphStep w o).1.reg, (graphStep w o).2) := by
  cases o <;> rfl

/-- **The call is `FwCall.run`** if nobody else takes a step. -/
theorem ResumeState.runs_alone (p : FwM ℤ) (w : World) (x : ResumeState) (t : Tid)
    (cleared : List SlotId) (hreg : x.reg = w.reg) (hx : x.task t = .calling p cleared) :
    ∃ answers : List ((o : FwOp) → o.Res), ∃ cleared',
      let y := runFrom step x (answers.map (.advance t))
      y.reg = (Prog.run graphStep p w).1.reg ∧
      y.returned t = some ((Prog.run graphStep p w).2, cleared ++ cleared') := by
  induction p generalizing w x cleared with
  | pure rc => exact ⟨[], [], hreg, by simp [returned, hx, Prog.run]⟩
  | op o k ih =>
    have hperform := performOn_eq w o
    rw [← hreg] at hperform
    have hstep : x.step (.advance t fun o => w.answers o 0) =
        { reg := (graphStep w o).1.reg
          sched := queuesAfter x.reg x.sched o
          task := update x.task t (.calling (k (graphStep w o).2) (cleared ++ o.clears)) } := by
      simp only [step, advance, hx, hperform]
    obtain ⟨answers, cleared', hrest⟩ := ih (graphStep w o).2 (graphStep w o).1
      (x.step (.advance t fun o => w.answers o 0)) (cleared ++ o.clears) (by rw [hstep])
        (by rw [hstep]; simp)
    refine ⟨(fun o => w.answers o 0) :: answers, o.clears ++ cleared', ?_⟩
    rw [List.append_assoc] at hrest
    exact hrest

namespace ResumeState

variable {x : ResumeState}

/-- What holds of those who wait if nobody is forgotten. -/
structure Good (x : ResumeState) : Prop where
  /-- The slot is still paused. -/
  paused : ∀ s, (x.reg.slot s).pauseState = .none → x.sched.waiters s = []
  /-- Nobody has a deadline. -/
  deadlines : x.sched.deadlines = []

/-- The conditions on a step: nobody is on the queue of a slot when its pause is about to be ended,
and a caller that has looked begins to wait while the slot is still paused. -/
def Permitted (x : ResumeState) : ResumeStep → Prop
  | .advance t _ => ∀ s ∈ x.clearsNext t, x.sched.waiters s = []
  | .park t => ∀ s ∈ x.lookedAt t, (x.reg.slot s).pauseState ≠ .none
  | .begin .. | .ret _ | .call .. | .look _ | .rerun _ | .tick _ => True

instance decidablePermitted (x : ResumeState) : DecidablePred x.Permitted
  | .advance t _ => inferInstanceAs (Decidable (∀ s ∈ x.clearsNext t, _))
  | .park t => inferInstanceAs (Decidable (∀ s ∈ x.lookedAt t, _))
  | .begin .. | .ret _ | .call .. | .look _ | .rerun _ | .tick _ => inferInstanceAs (Decidable True)

/-- What a step does to the registry and the queues. -/
inductive Moves (x : ResumeState) : ResumeStep → Registry → Sched SlotId → Prop
  | idle {a : ResumeStep} : Moves x a x.reg x.sched
  | perform {t : Tid} {answer : (o : FwOp) → o.Res} {o : FwOp} {k : o.Res → FwM ℤ}
      {cleared : List SlotId} (hst : x.task t = .calling (.op o k) cleared) :
      Moves x (.advance t answer) (performOn x.reg answer o).1 (queuesAfter x.reg x.sched o)
  | park {t : Tid} {src slot : SlotId} (hst : x.task t = .looked src slot) :
      Moves x (.park t) x.reg (x.sched.register slot t false)
  | tick {exceeded : Tid → Bool} : Moves x (.tick exceeded) x.reg (x.sched.nxWaitqTickDeadlines exceeded)

theorem step_moves (x : ResumeState) (a : ResumeStep) : Moves x a (x.step a).reg (x.step a).sched := by
  cases a with
  | advance t answer =>
    simp only [step, advance]
    split
    · rename_i hst
      exact .perform hst
    · exact .idle
  | park t =>
    simp only [step, park]
    split
    · rename_i hst
      exact .park hst
    · exact .idle
  | begin t call | ret t | call t src slot =>
    simp only [step]
    split <;> exact .idle
  | look t =>
    simp only [step, look]
    split
    · split <;> exact .idle
    · exact .idle
  | rerun t =>
    simp only [step]
    split
    · split_ifs <;> exact .idle
    · exact .idle
  | tick exceeded => exact .tick

end ResumeState

/-- A slot is not paused after a call of the registry: it was not paused before, or the call has set
it back, or made it. -/
theorem RegCall.pauseState_next {r : Registry} {call : RegCall} {s : SlotId}
    (h : ((call.next r).slot s).pauseState = .none) :
    (r.slot s).pauseState = .none ∨ call = .slotSetPauseState (some s) .none ∨
      ∃ calloc, call = .slotRegister (some s) calloc ∧ (call.apply r).2 = .ok () := by
  rcases call.outcome r with ⟨e, heq⟩ | ⟨hok, heffect⟩
  · rw [RegCall.next, heq] at h
    exact .inl h
  rw [RegCall.next] at h
  generalize (call.apply r).1 = r' at h heffect
  cases heffect with
  | @slotRegister s' hname hnew gen log =>
    by_cases hs : s = s'
    · subst hs
      exact .inr (.inr ⟨true, rfl, hok⟩)
    · exact .inl (by simpa [hs] using h)
  | @slotSetPauseState s' st hs' =>
    by_cases hs : s = s'
    · subst hs
      have hst : st = .none := by simpa using h
      exact .inr (.inl (by rw [hst]))
    · exact .inl (by simpa [hs] using h)
  | @slotSwap s' | @slotSetFallback s' =>
    by_cases hs : s = s'
    · subst hs
      exact .inl (by simpa using h)
    · exact .inl (by simpa [hs] using h)
  | slotUnregister | componentRegister | componentUnregister | componentStateSet | connectionRegister | connectionRetune
  | connectionUnregister => exact .inl h

/-- An operation empties queues at most. -/
theorem queuesAfter_waiters_eq_nil {r : Registry} {sched : Sched SlotId} {o : FwOp} {s : SlotId}
    (h : sched.waiters s = []) : (queuesAfter r sched o).waiters s = [] := by
  unfold queuesAfter
  split
  · split_ifs
    · simp only [nxWaitqInit, update_apply]
      split_ifs
      · rfl
      · exact h
    · exact h
  · exact h

@[simp] theorem queuesAfter_deadlines (r : Registry) (sched : Sched SlotId) (o : FwOp) :
    (queuesAfter r sched o).deadlines = sched.deadlines := by
  unfold queuesAfter
  split
  · split_ifs <;> rfl
  · rfl

namespace ResumeState

variable {x : ResumeState}

/-- Nobody gets a deadline. -/
theorem step_deadlines (h : x.sched.deadlines = []) (a : ResumeStep) :
    (x.step a).sched.deadlines = [] := by
  have hmoves := x.step_moves a
  generalize (x.step a).sched = sched', (x.step a).reg = reg' at hmoves ⊢
  cases hmoves with
  | idle => exact h
  | perform => simpa using h
  | park => exact h
  | tick => simp [Sched.nxWaitqTickDeadlines, h]

/-- An operation of a call that does not set back a slot somebody waits for. -/
theorem Good.perform (h : x.Good) {o : FwOp} (hclears : ∀ s ∈ o.clears, x.sched.waiters s = [])
    (answer : (o : FwOp) → o.Res) {s : SlotId}
    (hs : ((performOn x.reg answer o).1.slot s).pauseState = .none) :
    (queuesAfter x.reg x.sched o).waiters s = [] := by
  cases o with
  | reg call =>
    rcases RegCall.pauseState_next hs with hbefore | rfl | ⟨calloc, rfl, hok⟩
    · exact queuesAfter_waiters_eq_nil (h.paused s hbefore)
    · exact queuesAfter_waiters_eq_nil (hclears s (by simp [FwOp.clears]))
    · change (if _ then nxWaitqInit x.sched s else x.sched).waiters s = []
      rw [if_pos hok]
      exact update_self ..
  | _ => exact queuesAfter_waiters_eq_nil (h.paused s hs)

theorem Good.step (h : x.Good) {a : ResumeStep} (hok : x.Permitted a) : (x.step a).Good := by
  refine ⟨fun s hs => ?_, step_deadlines h.deadlines a⟩
  have hmoves := x.step_moves a
  generalize (x.step a).sched = sched', (x.step a).reg = reg' at hmoves hs ⊢
  cases hmoves with
  | idle => exact h.paused s hs
  | perform hst =>
    simp only [Permitted, clearsNext, hst] at hok
    exact h.perform hok _ hs
  | @park t src slot hst =>
    simp only [Permitted, lookedAt, hst] at hok
    have hne : s ≠ slot := fun heq => hok slot rfl (heq ▸ hs)
    simpa [Sched.register, hne] using h.paused s hs
  | tick => simpa [Sched.nxWaitqTickDeadlines, h.deadlines] using h.paused s hs

/-- **Nobody is forgotten.** In any run whose steps are permitted, when a call has come to its end,
nobody waits for a slot that it has set back to `NX_SLOT_PAUSE_NONE`. -/
theorem nobody_parked_after_resume (reg : Registry) (runqueue : List Tid) (steps : List ResumeStep)
    (hok : RunOk step Permitted { reg, sched := { runqueue } } steps) :
    let x := runFrom step { reg, sched := { runqueue } } steps
    ∀ t rc cleared, x.returned t = some (rc, cleared) →
      ∀ s ∈ cleared, (x.reg.slot s).pauseState = .none → x.sched.waiters s = [] := by
  intro x t rc cleared _ s _ hnone
  have h : x.Good := hok.inv Good (fun _ _ hok h => h.step hok) ⟨fun _ _ => rfl, rfl⟩
  exact h.paused s hnone

/-- Slot 1 has component 7, which is active and can be asked to pause, and the task with slot 2 has
a connection to it. Component 9 is ready. -/
def queueingGraph : Registry :=
  runFrom RegCall.next (bootRegistry (fun s => { name := some (toString s) })
    fun c => { manifestId := some "m", instanceId := some (toString c), ops := [.pause] })
    [.slotRegister (some 1) true, .slotRegister (some 2) true, .componentRegister (some 7) true,
      .componentRegister (some 9) true, .slotSwap (some 1) (some 7), .componentStateSet (some 7) .active,
      .componentStateSet (some 9) .ready, .connectionRegister (some 2) (some 1) .async false .queue
        true true]

/-- Task 4 makes some steps of its call, with agreeable answers. -/
def goesOn (n : ℕ) : List ResumeStep := List.replicate n (.advance 4 fun o => agreeable o 0)

/-- Components refuse what they are asked. -/
def refusing : (o : FwOp) → o.Res
  | .op _ _ => Err.einval.code
  | o => agreeable o 0

/-- Task 5 calls slot 1, and waits if it finds it paused. -/
def waitsForOne : List ResumeStep := [.call 5 2 1, .look 5, .park 5]

/-- Task 5 calls slot 1 before component 7 is paused, and again when it has been resumed. -/
def callsWhileOpen : List ResumeStep :=
  waitsForOne ++ .begin 4 (.verb .pause (some 7)) :: goesOn 60 ++ .ret 4 :: .begin 4
    (.verb .resume (some 7)) :: goesOn 60 ++ waitsForOne

theorem nobody_parked_after_resume_open :
    let x := runFrom step { reg := queueingGraph, sched := { runqueue := [4, 5] } } callsWhileOpen
    x.returned 4 = some (0, [1]) ∧ (x.reg.slot 1).pauseState = .none ∧ x.sched.waiters 1 = [] :=
  ⟨by decide +kernel, by decide +kernel,
    nobody_parked_after_resume queueingGraph [4, 5] callsWhileOpen (by decide +kernel) 4 0 [1]
      (by decide +kernel) 1 (by decide +kernel) (by decide +kernel)⟩

/-- The call of task 4 is over, and has set back slot 1, for which task 5 still waits. -/
def ForgetsFive (x : ResumeState) : Prop :=
  (x.returned 4).any (fun res => decide (1 ∈ res.2)) = true ∧ (x.reg.slot 1).pauseState = .none ∧
    x.sched.waiters 1 = [5]

instance (x : ResumeState) : Decidable x.ForgetsFive := inferInstanceAs (Decidable (_ ∧ _ ∧ _))

/-- **Callers that are forgotten**: by a resume; by a pause that fails, because the component
refuses; and by a recomposition. -/
theorem caller_parked_after_resume :
    let x₀ : ResumeState := { reg := queueingGraph, sched := { runqueue := [4, 5] } }
    ForgetsFive (runFrom step x₀ (.begin 4 (.verb .pause (some 7)) :: goesOn 60 ++
      .ret 4 :: waitsForOne ++ .begin 4 (.verb .resume (some 7)) :: goesOn 60)) ∧
      ForgetsFive (runFrom step x₀ (.begin 4 (.verb .pause (some 7)) :: goesOn 8 ++ waitsForOne ++
        List.replicate 60 (.advance 4 refusing))) ∧
      ForgetsFive (runFrom step x₀
        (.begin 4 (.recompose (some { changes := [⟨some 1, .replace, some 9, false⟩] })) ::
        goesOn 12 ++ waitsForOne ++ goesOn 100)) := by
  decide +kernel

end ResumeState

end Nonux.Framework
