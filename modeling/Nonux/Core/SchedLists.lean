import Nonux.Core.Waitq
import Nonux.Framework.Abi
import Nonux.Lib.DList

/-!
# Tasks on lists (`core/sched`, `components/sched_rr`, `components/sched_priority`)

A task is on the runqueue of the scheduler or on a wait queue, through one and the same node
`sched_node`, and on the list of deadlines through `deadline_node`. All movers of tasks assign to
the pointers of the nodes: the two scheduling policies, the wait queues and the timer's tick.

## The model

`SchedState Q` has the pointers of all nodes (`Nonux.Lib.Links`), the fields of the tasks, the task
that runs and the policy that is in charge. Wait queues are named by `Q`. A loop over a list goes on
until it is back at the head; here it is given as many turns as there are nodes.

A task that is switched away from goes on, when it is switched to again, inside of the function that
it was in: `nx_waitq_wait_with_deadline` returns then, with what `wait_woken` says. So a wait is two
fields of a task, `inWait` while it is in the function, and its return is an entry of `completed`.
An entry also has what released the task since it began to wait (`causes`), which is not there in
the code.

Signals, which end a task, hooks and address spaces do not come in.
-/

namespace Nonux.Core

open Nonux.Lib Nonux.Framework Function

/-! ### The state -/

/-- The heads of the lists. -/
inductive ListHead (Q : Type) where
  /-- `runqueue` of `sched_rr`. -/
  | rr
  /-- One of the `queues` of `sched_priority`. -/
  | prio (p : Fin 8)
  | waitq (q : Q)
  /-- `g_deadline_list`. -/
  | deadlines
  deriving DecidableEq

/-- `struct nx_list_node`s. -/
inductive ListNode (Q : Type) where
  | head (h : ListHead Q)
  | sched (t : Tid)
  | deadline (t : Tid)
  deriving DecidableEq

/-- The components that schedule. -/
inductive Policy where
  | rr
  | priority
  deriving DecidableEq, Repr

/-- What releases a task that waits. -/
inductive Cause where
  | wake
  | deadline
  deriving DecidableEq, Repr

/-- The fields of `struct nx_task`, and where the task is. -/
structure SchedTask (Q : Type) extends WaitFields Q where
  needResched : Bool := false
  preemptCount : ℕ := 0
  /-- It is in `cpu_switch_to`. -/
  switchedOut : Bool := false
  /-- It is in `nx_waitq_wait_with_deadline`. -/
  inWait : Bool := false
  causes : List Cause := []

/-- The state of tasks and lists. -/
structure SchedState (Q : Type) where
  links : Links (ListNode Q)
  task : Tid → SchedTask Q
  /-- Tasks have the numbers below. -/
  created : ℕ
  /-- `nx_task_current()` -/
  current : Tid
  /-- `g_sched_ops` -/
  active : Policy
  /-- `remaining`, of either policy. -/
  remaining : Policy → ℕ
  /-- The waits that have returned, with their codes. -/
  completed : List (Tid × Except Err Unit × List Cause) := []

/-- `quantum_ticks` -/
def quantumTicks : ℕ := 2

variable {Q : Type}

/-- The queues of a policy, the lowest first. -/
def Policy.queues : Policy → List (ListHead Q)
  | rr => [.rr]
  | priority => (List.finRange 8).map .prio

/-- Where a task is enqueued. -/
def Policy.defaultQueue : Policy → ListHead Q
  | rr => .rr
  | priority => .prio 0

namespace SchedState

/-- More than the nodes there are. -/
def turns (s : SchedState Q) : ℕ := 2 * s.created + 1

def setTask (s : SchedState Q) (t : Tid) (f : SchedTask Q → SchedTask Q) : SchedState Q :=
  { s with task := update s.task t (f (s.task t)) }

@[simp] theorem setTask_self (s : SchedState Q) (t : Tid) (f : SchedTask Q → SchedTask Q) :
    (s.setTask t f).task t = f (s.task t) := update_self ..

theorem setTask_of_ne (s : SchedState Q) {t u : Tid} (f : SchedTask Q → SchedTask Q) (hu : u ≠ t) :
    (s.setTask t f).task u = s.task u := update_of_ne hu ..

variable [DecidableEq Q]

/-- `nx_list_remove` -/
def unlink (s : SchedState Q) (n : ListNode Q) : SchedState Q := { s with links := s.links.remove n }

/-- `nx_list_add_tail` -/
def addTail (s : SchedState Q) (h : ListHead Q) (n : ListNode Q) : SchedState Q :=
  { s with links := s.links.addTail (.head h) n }

/-- The nodes of a list. -/
def nodes (s : SchedState Q) (h : ListHead Q) : List (ListNode Q) := s.links.walk s.turns (.head h)

/-! ### The policies -/

/-- `on_queue` -/
def onQueue (s : SchedState Q) (pol : Policy) (t : Tid) : Bool :=
  pol.queues.any fun h => decide (.sched t ∈ s.nodes h)

/-- `task_priority` -/
def taskPriority (s : SchedState Q) (t : Tid) : Option (Fin 8) :=
  (List.finRange 8).find? fun p => decide (.sched t ∈ s.nodes (.prio p))

/-- The task of a node, if it is not blocked. -/
def runnable (s : SchedState Q) : ListNode Q → Option Tid
  | .sched t => if (s.task t).state ≠ .blocked then some t else none
  | _ => none

/-- `sched_rr_pick_next`, `sched_priority_pick_next`: from the highest queue down. -/
def pickNext (s : SchedState Q) (pol : Policy) : Option Tid :=
  pol.queues.reverse.findSome? fun h => (s.nodes h).findSome? s.runnable

/-- `sched_rr_enqueue`, `sched_priority_enqueue`. -/
def enqueue (s : SchedState Q) (pol : Policy) (t : Tid) : SchedState Q :=
  if s.onQueue pol t then s
  else
    let s := s.addTail pol.defaultQueue (.sched t)
    if s.current = idle ∧ t ≠ idle then
      s.setTask s.current fun c => { c with needResched := true }
    else s

/-- `sched_rr_dequeue`, `sched_priority_dequeue`. -/
def dequeue (s : SchedState Q) (pol : Policy) (t : Tid) : SchedState Q :=
  if s.onQueue pol t then s.unlink (.sched t) else s

/-- Move a node to the end of a queue, and start a new slice. -/
def rotate (s : SchedState Q) (pol : Policy) (h : ListHead Q) (n : ListNode Q) : SchedState Q :=
  { (s.unlink n).addTail h n with remaining := update s.remaining pol quantumTicks }

/-- `sched_rr_yield`, `sched_priority_yield`. -/
def policyYield (s : SchedState Q) : Policy → SchedState Q
  | .rr => if s.links.isEmpty (.head .rr) then s else s.rotate .rr .rr (s.links.next (.head .rr))
  | .priority =>
    match s.taskPriority s.current with
    | some p => s.rotate .priority (.prio p) (.sched s.current)
    | none =>
      match (List.finRange 8).reverse.find? fun p => !s.links.isEmpty (.head (.prio p)) with
      | some p => s.rotate .priority (.prio p) (s.links.next (.head (.prio p)))
      | none => s

/-- `sched_priority_set_priority`, for a priority in range. -/
def setPriority (s : SchedState Q) (t : Tid) (priority : Fin 8) : SchedState Q :=
  match s.taskPriority t with
  | none => s
  | some p => if p = priority then s else (s.unlink (.sched t)).addTail (.prio priority) (.sched t)

/-- `sched_rr_tick`, `sched_priority_tick`. -/
def policyTick (s : SchedState Q) (pol : Policy) : SchedState Q :=
  let left := s.remaining pol - 1
  if left = 0 then
    { s.setTask s.current fun c => { c with needResched := true } with
      remaining := update s.remaining pol quantumTicks }
  else { s with remaining := update s.remaining pol left }

/-! ### Switching -/

/-- The end of `sched_check_resched`, from where the hook is run: another task goes on. -/
def switchTo (s : SchedState Q) (next : Tid) : SchedState Q :=
  let s := s.setTask s.current
    fun c => { c with preemptCount := c.preemptCount + 1, switchedOut := true }
  let s := { s with current := next }
  if (s.task next).switchedOut then
    s.setTask next fun c => { c with preemptCount := c.preemptCount - 1, switchedOut := false }
  else s

/-- `sched_check_resched`. -/
def schedCheckResched (s : SchedState Q) : SchedState Q :=
  if (s.task s.current).needResched = false then s
  else if 0 < (s.task s.current).preemptCount then s
  else
    let s := s.setTask s.current fun c => { c with needResched := false }
    let s := s.policyYield s.active
    match s.pickNext s.active with
    | none => s
    | some next => if next = s.current then s else s.switchTo next

/-- The task that runs returns from its wait, if it is in one. -/
def finishWait (s : SchedState Q) : SchedState Q :=
  let c := s.task s.current
  if c.inWait then
    { s.setTask s.current fun c => { c with inWait := false } with
      completed := s.completed ++ [(s.current, if c.waitWoken then .ok () else .error .edeadline,
        c.causes)] }
  else s

/-- `nx_task_yield`, up to where a task goes on outside of the scheduler. -/
def nxTaskYield (s : SchedState Q) : SchedState Q :=
  (s.setTask s.current fun c => { c with needResched := true }).schedCheckResched.finishWait

/-! ### Wait queues -/

/-- `waitq_register_and_wait_locked`, up to where it yields. -/
def waitqRegister (s : SchedState Q) (q : Q) (deadline : Bool) : SchedState Q :=
  let t := s.current
  let s := (s.dequeue s.active t).addTail (.waitq q) (.sched t)
  let s := if deadline then s.addTail .deadlines (.deadline t) else s
  s.setTask t fun c =>
    { c with
      state := .blocked, waitQ := some q, waitWoken := false, waitHasDeadline := deadline,
        inWait := true, causes := [] }

/-- `nx_waitq_wait_with_deadline`. -/
def nxWaitqWait (s : SchedState Q) (q : Q) (deadline : Bool) : SchedState Q :=
  (s.waitqRegister q deadline).nxTaskYield

/-- `waitq_release_locked`. -/
def waitqReleaseLocked (s : SchedState Q) (t : Tid) : SchedState Q :=
  let s := s.unlink (.sched t)
  let s := if (s.task t).waitHasDeadline then s.unlink (.deadline t) else s
  let s := s.setTask t fun c =>
    { c with state := .ready, waitQ := none, waitHasDeadline := false, waitWoken := true, causes := c.causes ++ [.wake] }
  s.enqueue s.active t

/-- `nx_waitq_wake_one`. -/
def nxWaitqWakeOne (s : SchedState Q) (q : Q) : SchedState Q :=
  if s.links.isEmpty (.head (.waitq q)) then s
  else
    match s.links.next (.head (.waitq q)) with
    | .sched t => s.waitqReleaseLocked t
    | _ => s

/-- The loop of `nx_waitq_wake_all`. -/
def wakeLoop (q : Q) : ℕ → SchedState Q → SchedState Q
  | 0, s => s
  | turns + 1, s => if s.links.isEmpty (.head (.waitq q)) then s else wakeLoop q turns
      (s.nxWaitqWakeOne q)

/-- `nx_waitq_wake_all`. -/
def nxWaitqWakeAll (s : SchedState Q) (q : Q) : SchedState Q := wakeLoop q s.turns s

/-- What `nx_waitq_tick_deadlines` does to a task whose deadline is exceeded. -/
def expire (s : SchedState Q) (t : Tid) : SchedState Q :=
  let s := (s.unlink (.sched t)).unlink (.deadline t)
  let s := s.setTask t fun c =>
    { c with state := .ready, waitQ := none, waitHasDeadline := false, causes := c.causes ++ [.deadline] }
  s.enqueue s.active t

/-- The body of the loop of `nx_waitq_tick_deadlines`. -/
def tickNode (exceeded : Tid → Bool) (s : SchedState Q) : ListNode Q → SchedState Q
  | .deadline t => if exceeded t then s.expire t else s
  | _ => s

/-- The loop of `nx_waitq_tick_deadlines`: `tmp` is what comes after `n`. -/
def tickLoop (exceeded : Tid → Bool) : ℕ → ListNode Q → ListNode Q → SchedState Q → SchedState Q
  | 0, _, _, s => s
  | turns + 1, n, tmp, s =>
    if n = .head .deadlines then s
    else
      let s := s.tickNode exceeded n
      tickLoop exceeded turns tmp (s.links.next tmp) s

/-- `nx_waitq_tick_deadlines`. -/
def nxWaitqTickDeadlines (s : SchedState Q) (exceeded : Tid → Bool) : SchedState Q :=
  let n := s.links.next (.head .deadlines)
  tickLoop exceeded s.turns n (s.links.next n) s

/-! ### Tasks -/

/-- `sched_spawn_kthread`, when there is memory. -/
def schedSpawnKthread (s : SchedState Q) : SchedState Q :=
  let t := s.created
  let s := { s with
    created := s.created + 1
    links := (s.links.init (.sched t)).init (.deadline t)
    task := update s.task t {} }
  s.enqueue s.active t

end SchedState

/-! ### Runs -/

/-- The calls. -/
inductive SchedCall (Q : Type) where
  | spawn
  /-- `nx_waitq_wait_with_deadline`, with a budget that is not 0 or without one. -/
  | wait (q : Q) (deadline : Bool)
  | wakeOne (q : Q)
  | wakeAll (q : Q)
  /-- `sched_tick`, with the tasks whose deadlines are exceeded. -/
  | tick (exceeded : Tid → Bool)
  /-- `nx_task_yield` -/
  | yield
  /-- `sched_check_resched`, on the way back from an interrupt. -/
  | checkResched
  | setPriority (t : Tid) (priority : Fin 8)

variable [DecidableEq Q]

/-- A call, made by the task that runs or by an interrupt. -/
def SchedState.step (s : SchedState Q) : SchedCall Q → SchedState Q
  | .spawn => s.schedSpawnKthread
  | .wait q deadline => s.nxWaitqWait q deadline
  | .wakeOne q => s.nxWaitqWakeOne q
  | .wakeAll q => s.nxWaitqWakeAll q
  | .tick exceeded => (s.policyTick s.active).nxWaitqTickDeadlines exceeded
  | .yield => s.nxTaskYield
  | .checkResched => s.schedCheckResched.finishWait
  | .setPriority t priority => if s.active = .priority then s.setPriority t priority else s

/-- In `sched_start`: the lists are empty, and the task `idle` runs. -/
def SchedState.start (pol : Policy) : SchedState Q where
  links := ⟨id, id⟩
  task t := if t = idle then { state := .running } else {}
  created := 1
  current := idle
  active := pol
  remaining _ := quantumTicks

/-- After `sched_start`. -/
def SchedState.boot (pol : Policy) : SchedState Q := (SchedState.start pol).enqueue pol idle

end Nonux.Core
