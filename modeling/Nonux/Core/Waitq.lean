import Mathlib.Tactic

/-!
# The runqueue and the wait queues (`core/sched/waitq.c`) and deadlines (`core/cpu/monotonic.h`)

A task is linked on the runqueue or on a wait queue through its `sched_node`, and on the list of
deadlines through its `deadline_node`. A task that waits takes itself off the runqueue and goes to
the tail of a wait queue. A wake, or its deadline, brings it back.

## The model

`Sched Q` has the lists, with wait queues named by `Q`, and for each task the fields that `waitq.c`
keeps about its wait. The runqueue is the policy's list. `nx_list_remove` takes a node out of
whichever list it is on. Whether a deadline is exceeded is asked of the clock, and is an argument
here.

## What is proved

`nxDeadlineStart_exact`: a deadline is exceeded when more ticks have passed than the budget is
worth.
-/

namespace Nonux.Core

open Function

/-- A task, by its identity on the heap. -/
abbrev Tid := ℕ

/-- `g_idle_task`. -/
def idle : Tid := 0

/-- `enum nx_task_state`. -/
inductive TaskState where
  | ready
  | running
  | blocked
  | zombie
  deriving DecidableEq, Repr

/-- The fields of `struct nx_task` that tell about its wait. -/
structure WaitFields (Q : Type) where
  state : TaskState := .ready
  waitQ : Option Q := none
  waitHasDeadline : Bool := false
  waitWoken : Bool := false

/-- The lists that tasks are linked on. -/
structure Sched (Q : Type) where
  runqueue : List Tid := []
  waiters : Q → List Tid := fun _ => []
  /-- `g_deadline_list`. -/
  deadlines : List Tid := []
  fields : Tid → WaitFields Q := fun _ => {}

namespace Sched

variable {Q : Type}

/-! ### The operations -/

/-- The policy's `enqueue`, which refuses a task that is queued already. -/
def enqueue (s : Sched Q) (t : Tid) : Sched Q :=
  if t ∈ s.runqueue then s else { s with runqueue := s.runqueue ++ [t] }

/-- The policy's `dequeue`. -/
def dequeue (s : Sched Q) (t : Tid) : Sched Q := { s with runqueue := s.runqueue.filter (· ≠ t) }

/-- `nx_list_remove(&t->sched_node)`. -/
def unlinkNode (s : Sched Q) (t : Tid) : Sched Q :=
  { s.dequeue t with waiters := fun q => (s.waiters q).filter (· ≠ t) }

/-- What `waitq_register_and_wait_locked` does before it yields. -/
def register [DecidableEq Q] (s : Sched Q) (q : Q) (t : Tid) (deadline : Bool) : Sched Q :=
  { s.dequeue t with
    waiters := update s.waiters q (s.waiters q ++ [t])
    deadlines := if deadline then s.deadlines ++ [t] else s.deadlines
    fields := update s.fields t { state := .blocked, waitQ := some q, waitHasDeadline := deadline } }

/-- What `nx_waitq_tick_deadlines` does to a task whose deadline is exceeded. -/
def expire (s : Sched Q) (t : Tid) : Sched Q :=
  { s.unlinkNode t with
    deadlines := s.deadlines.filter (· ≠ t)
    fields := update s.fields t { waitWoken := (s.fields t).waitWoken } }.enqueue t

/-- `nx_waitq_tick_deadlines`. -/
def nxWaitqTickDeadlines (s : Sched Q) (exceeded : Tid → Bool) : Sched Q :=
  s.deadlines.foldl (fun s t => if exceeded t then s.expire t else s) s

end Sched

/-! ### Deadlines -/

/-- `struct nx_deadline`. -/
structure Deadline where
  start : UInt64
  threshold : UInt64
  valid : Bool

/-- `nx_deadline_start`, with what is read of the counter, if it can be read, and its frequency. -/
def nxDeadlineStart (raw : Option UInt64) (freq budgetNs : UInt64) : Deadline :=
  { start := raw.getD 0
    threshold := budgetNs / 1000000000 * freq + budgetNs % 1000000000 * freq / 1000000000
    valid := raw.isSome }

/-- `nx_deadline_exceeded`. -/
def nxDeadlineExceeded (d : Deadline) (raw : Option UInt64) : Bool :=
  if d.valid = false then true
  else
    match raw with
    | none => true
    | some now => d.threshold < now - d.start

/-- **Deadlines are exact.** No operation overflows, and the threshold is the budget in ticks,
rounded down. The counter shows the ticks modulo `2 ^ 64`. -/
theorem nxDeadlineStart_exact (budgetNs freq : UInt64) (hfreq : freq.toNat ≤ 1000000000)
    (start ticks : ℕ) (hticks : ticks < 2 ^ 64) :
    let whole := budgetNs.toNat / 1000000000 * freq.toNat
    let rest := budgetNs.toNat % 1000000000 * freq.toNat
    let d := nxDeadlineStart (some (.ofNat start)) freq budgetNs
    whole < 2 ^ 64 ∧ rest < 2 ^ 64 ∧ whole + rest / 1000000000 < 2 ^ 64 ∧
      d.threshold.toNat = budgetNs.toNat * freq.toNat / 1000000000 ∧
      (nxDeadlineExceeded d (some (.ofNat (start + ticks))) = true ↔
        budgetNs.toNat * freq.toNat / 1000000000 < ticks) := by
  intro whole rest d
  have hbudget := budgetNs.toNat_lt
  have hwhole : whole ≤ budgetNs.toNat / 1000000000 * 1000000000 := Nat.mul_le_mul_left _ hfreq
  have hrest : rest ≤ budgetNs.toNat % 1000000000 * 1000000000 := Nat.mul_le_mul_left _ hfreq
  have hsplit : budgetNs.toNat * freq.toNat / 1000000000 = whole + rest / 1000000000 := by
    have : budgetNs.toNat * freq.toNat = rest + 1000000000 * whole := by
      conv_lhs => rw [← Nat.mod_add_div budgetNs.toNat 1000000000]
      simp only [whole, rest]
      ring
    rw [this, Nat.add_mul_div_left _ _ (by norm_num), add_comm]
  have hthreshold : d.threshold.toNat = whole + rest / 1000000000 := by
    simp only [d, nxDeadlineStart, UInt64.toNat_add, UInt64.toNat_mul, UInt64.toNat_div,
      UInt64.toNat_mod, UInt64.reduceToNat]
    rw [Nat.mod_eq_of_lt (a := whole) (by omega), Nat.mod_eq_of_lt (a := rest) (by omega),
      Nat.mod_eq_of_lt (by omega)]
  have helapsed : (UInt64.ofNat (start + ticks) - UInt64.ofNat start).toNat = ticks := by
    simp only [UInt64.toNat_sub, UInt64.toNat_ofNat']
    omega
  refine ⟨by omega, by omega, by omega, by rw [hthreshold, hsplit], ?_⟩
  have hexceeded : nxDeadlineExceeded d (some (.ofNat (start + ticks))) =
      decide (d.threshold < .ofNat (start + ticks) - .ofNat start) := rfl
  rw [hexceeded, decide_eq_true_iff, UInt64.lt_iff_toNat_lt, helapsed, hthreshold, hsplit]

/-- A second at 62.5 MHz, on a counter that is about to wrap around. -/
theorem nxDeadlineStart_wraps :
    nxDeadlineExceeded (nxDeadlineStart (some (.ofNat (2 ^ 64 - 1))) 62500000 1000000000)
      (some (.ofNat (2 ^ 64 - 1 + 62500001))) = true :=
  (nxDeadlineStart_exact 1000000000 62500000 (by decide) (2 ^ 64 - 1) 62500001
    (by decide)).2.2.2.2.mpr (by decide)

end Nonux.Core
