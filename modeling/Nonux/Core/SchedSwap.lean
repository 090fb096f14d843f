import Nonux.Core.SchedRuns
import Nonux.Framework.Config

/-!
# Another scheduler (`components/sched_rr`, `components/sched_priority`, `framework/config.c`)

The component behind the slot `scheduler` can be swapped while the system runs. The runqueue is
private to each of the two components, and made of the nodes of the tasks. What happens to it is
what `enable` of the new component does: both put themselves in charge, and `sched_rr` also enqueues
the task `idle`. Nobody moves tasks; who swaps enqueues them in the new scheduler.

## The model

`schedAct` is what the operations of the components do to the state of tasks and lists: a swap is a
program of the framework (`nxConfigSwapComponent`), and its run is watched from there
(`Prog.watch`).

* `swap_scheduler`: the new scheduler is in charge, without the tasks of the old one.
-/

namespace Nonux.Core

open Nonux.Lib Nonux.Framework Links

variable {Q : Type} [DecidableEq Q]

namespace SchedState

/-- `sched_rr_init`, `sched_priority_init`. -/
def policyInit (s : SchedState Q) (pol : Policy) : SchedState Q :=
  { s with
    links := (pol.queues.map ListNode.head).foldl Links.init s.links
    remaining := Function.update s.remaining pol quantumTicks }

/-- `sched_rr_enable`, `sched_priority_enable`, in the kernel. -/
def policyEnable (s : SchedState Q) : Policy → SchedState Q
  | .rr =>
    let s := { s with active := .rr }
    if s.onQueue .rr idle then s else s.enqueue .rr idle
  | .priority => { s with active := .priority }

/-- What an operation of a component does. `disable` and `destroy` of a scheduler only count. -/
def schedAct (kind : CompId → Option Policy) (s : SchedState Q) : FwOp → SchedState Q
  | .op .init c => (kind c).elim s s.policyInit
  | .op .enable c => (kind c).elim s s.policyEnable
  | _ => s

theorem schedAct_of_not_enables (kind : CompId → Option Policy) (o : FwOp) (ho : ¬ o.Enables)
    (s : SchedState Q) : s.schedAct kind o = s := by
  unfold schedAct
  split
  · exact absurd trivial ho
  · exact absurd trivial ho
  · rfl

/-- `nx_config_swap_component`, with what it does to tasks and lists. -/
def swapScheduler (kind : CompId → Option Policy) (r : Registry) (a : Answers) (s : SchedState Q)
    (slotName newImpl : Option String) : (World × SchedState Q) × ℤ :=
  Prog.run (Prog.watch graphStep (schedAct kind)) (nxConfigSwapComponent slotName newImpl) (⟨r, a⟩, s)

variable {s : SchedState Q} {list : ListHead Q → List (ListNode Q)} {t : Tid}

/-! ### What `enable` does to the lists -/

/-- `sched_rr` is in charge, with `idle` at the end of its queue if it was not on it. -/
theorem Linked.nodes_enable_rr (L : Linked s list) (hidle : idle < s.created) :
    (s.policyEnable .rr).active = .rr ∧ (s.policyEnable .rr).task = s.task ∧
      (s.policyEnable .rr).links.Ring (.head .rr) ((s.policyEnable .rr).nodes .rr) ∧
      (s.policyEnable .rr).nodes .rr =
        if .sched idle ∈ list .rr then list .rr else list .rr ++ [.sched idle] := by
  have L' : Linked { s with active := .rr } list := L.congr rfl rfl
  have hqueue : ({ s with active := .rr } : SchedState Q).onQueue .rr idle = true ↔
      .sched idle ∈ list .rr := by
    simp [L'.onQueue_iff, Policy.queues]
  unfold policyEnable
  dsimp only
  by_cases hon : .sched idle ∈ list .rr
  · rw [if_pos (hqueue.mpr hon), if_pos hon, L'.nodes_eq]
    exact ⟨rfl, rfl, L.rings.ring .rr, rfl⟩
  · have hring := (L.rings.ring .rr).addTail (x := .sched idle) (by simp [hon])
    have henqueue : ({ s with active := .rr } : SchedState Q).enqueue .rr idle =
        ({ s with active := .rr } : SchedState Q).addTail .rr (.sched idle) := by
      rw [enqueue, if_neg (hqueue.not.mpr hon)]
      exact if_neg fun h => h.2 rfl
    rw [if_neg (hqueue.not.mpr hon), if_neg hon, henqueue]
    have hnodes : (({ s with active := .rr } : SchedState Q).addTail .rr (.sched idle)).nodes .rr =
        list .rr ++ [.sched idle] := by
      refine hring.walk_eq (length_lt_turns hring.nodup.of_cons fun n hn => ?_)
      rcases List.mem_append.mp hn with hn | hn
      · exact L.known hn
      · exact ⟨idle, hidle, .inl (List.mem_singleton.mp hn)⟩
    exact ⟨rfl, rfl, hnodes.symm ▸ hring, hnodes⟩

/-- What a swap leaves: the new scheduler is in charge. The tasks of the old one are not on its
runqueue, but for `idle` if it is `sched_rr`, which then picks a task unless `idle` is blocked; if
it is `sched_priority` no node is in two lists. -/
structure SwapOutcome (s s' : SchedState Q) (pol : Policy) : Prop where
  active : s'.active = pol
  left : ∀ t ≠ idle, s.onQueue s.active t = true → s'.onQueue pol t = false
  idle : pol = .rr → (s'.nodes .rr).count (.sched idle) = 1
  picks : pol = .rr → (s.task Core.idle).state ≠ .blocked → s'.pickNext pol ≠ none
  apart : pol = .priority → ∀ n h k, n ∈ s'.nodes h → n ∈ s'.nodes k → h = k

theorem swapOutcome_priority (L : Linked s list) (hold : s.active = .rr) :
    SwapOutcome s (s.policyEnable .priority) .priority := by
  have L' : Linked (s.policyEnable .priority) list := L.congr rfl rfl
  refine ⟨rfl, fun t _ hon => ?_, nofun, nofun, fun _ n h k hh hk => ?_⟩
  · rw [hold, L.onQueue_iff] at hon
    rw [Bool.eq_false_iff, ne_eq, L'.onQueue_iff]
    rintro ⟨h, hh, hmem⟩
    obtain ⟨k, hk, hmem'⟩ := hon
    cases L.rings.apart hmem hmem'
    simp only [Policy.queues, List.mem_singleton, List.mem_map] at hh hk
    obtain ⟨p, -, rfl⟩ := hh
    cases hk
  · rw [L'.nodes_eq] at hh hk
    exact L.rings.apart hh hk

theorem swapOutcome_rr (L : Linked s list) (hidle : idle < s.created) (hold : s.active = .priority) :
    SwapOutcome s (s.policyEnable .rr) .rr := by
  obtain ⟨hactive, htask, hring, hnodes⟩ := L.nodes_enable_rr hidle
  have hon : .sched idle ∈ (s.policyEnable .rr).nodes .rr := by
    rw [hnodes]
    split_ifs with hon
    · exact hon
    · simp
  refine ⟨hactive, fun t ht hqueue => ?_, fun _ => ?_, fun _ hstate hnone => ?_, nofun⟩
  · rw [hold, L.onQueue_iff] at hqueue
    obtain ⟨k, hk, hmem⟩ := hqueue
    obtain ⟨p, -, rfl⟩ := List.mem_map.mp hk
    have hrr : .sched t ∉ list .rr := fun hmem' => nomatch L.rings.apart hmem hmem'
    have hnot : .sched t ∉ (s.policyEnable .rr).nodes .rr := by
      rw [hnodes]
      split_ifs
      · exact hrr
      · simp [hrr, ht]
    simpa [onQueue, Policy.queues] using hnot
  · exact List.count_eq_one_of_mem hring.nodup.of_cons hon
  · have hqueue := List.findSome?_eq_none_iff.mp hnone .rr (by simp [Policy.queues])
    have hnode := List.findSome?_eq_none_iff.mp hqueue _ hon
    simp [runnable, htask, hstate] at hnode

/-- **A swap of the scheduler after which the new one is active puts it in charge, and moves no
task.** -/
theorem swap_scheduler (kind : CompId → Option Policy) {r : Registry} (hr : Consistent r) (a : Answers)
    (hlists : ∃ list, Linked s list) (hidle : idle < s.created) (slotName newImpl : Option String)
    (new : CompId) (pol : Policy) (hnew : newImpl.bind (findReadyComp r) = some new)
    (hkind : kind new = some pol) (hop : CompOp.enable ∈ (r.comp new).ops) (hold : s.active ≠ pol)
    (hok : (swapScheduler kind r a s slotName newImpl).2 = nxOk)
    (hactive : ((swapScheduler kind r a s slotName newImpl).1.1.reg.comp new).state = .active) :
    SwapOutcome s (swapScheduler kind r a s slotName newImpl).1.2 pol := by
  unfold swapScheduler at *
  rw [(Prog.run_watch _ _).2] at hok
  rw [(Prog.run_watch _ _).1] at hactive
  obtain ⟨slot, new', -, hnew', -, henables⟩ := nxConfigSwapComponent_enables (t := s)
    (schedAct_of_not_enables kind) hr hok
  obtain rfl : new = new' := Option.some.inj (hnew.symm.trans hnew')
  rw [henables hactive hop]
  obtain ⟨list, L⟩ := hlists
  change SwapOutcome s ((kind new).elim s s.policyEnable) pol
  rw [hkind]
  cases pol with
  | rr =>
    refine swapOutcome_rr L hidle ?_
    cases h : s.active with
    | rr => exact absurd h hold
    | priority => rfl
  | priority =>
    refine swapOutcome_priority L ?_
    cases h : s.active with
    | rr => rfl
    | priority => exact absurd h hold

/-- `sched_rr` is behind the slot `scheduler`, and `sched_priority` is ready. -/
def twoSchedulers : Registry :=
  runFrom FwCall.next (bootRegistry (fun _ => { name := some "scheduler" }) fun c =>
      { manifestId := some (if c = 7 then "sched_rr" else "sched_priority")
        instanceId := some "0"
        ops := [.init, .enable, .disable, .destroy, .handleMsg] })
    (agreed [.reg (.slotRegister (some 1) true), .reg (.componentRegister (some 7) true),
      .reg (.componentRegister (some 9) true), .verb .init (some 7), .verb .init (some 9),
      .reg (.slotSwap (some 1) (some 7)), .verb .enable (some 7)])

/-- Which scheduler a component is. -/
def schedulerKind (c : CompId) : Option Policy :=
  if c = 7 then some .rr else if c = 9 then some .priority else none

/-- `idle` and another task, with `sched_rr`. -/
def twoTasks : SchedState (Fin 1) := runFrom step (SchedState.boot .rr) [.spawn]

theorem linked_twoTasks : ∃ list, Linked twoTasks list := by
  obtain ⟨I, A⟩ := inv_boot (Q := Fin 1) .rr
  obtain ⟨list, P⟩ := (I.schedSpawnKthread A).1.placed
  exact ⟨list, P.linked⟩

theorem swap_scheduler_two_tasks :
    let res := swapScheduler schedulerKind twoSchedulers agreeable twoTasks (some "scheduler")
      (some "sched_priority")
    res.2 = nxOk ∧ (res.1.1.reg.comp 9).state = .active ∧ SwapOutcome twoTasks res.1.2 .priority := by
  intro res
  have hok : res.2 = nxOk := by decide +kernel
  have hactive : (res.1.1.reg.comp 9).state = .active := by decide +kernel
  exact ⟨hok, hactive, swap_scheduler schedulerKind (consistent_fwRun _ _ _) agreeable
    linked_twoTasks (by decide +kernel)
    _ _ 9 .priority (by decide +kernel) rfl (by decide +kernel) (by decide +kernel) hok hactive⟩

/-- Both tasks are left on the runqueue of `sched_rr`, and `sched_priority`, which is in charge, has
nothing to pick. -/
theorem tasks_stay_behind :
    let res := swapScheduler schedulerKind twoSchedulers agreeable twoTasks (some "scheduler")
      (some "sched_priority")
    res.2 = nxOk ∧ (res.1.1.reg.slot 1).active = some 9 ∧ (res.1.1.reg.comp 9).state = .active ∧
      res.1.2.active = .priority ∧
      (∀ t < 2, twoTasks.onQueue .rr t = true ∧ res.1.2.onQueue .rr t = true ∧
        res.1.2.onQueue .priority t = false) ∧ res.1.2.pickNext .priority = none := by
  decide +kernel

end SchedState

end Nonux.Core
