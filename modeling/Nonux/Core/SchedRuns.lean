import Nonux.Core.SchedLists
import Nonux.Lib.Loop

/-!
# Every task is on its list

All movers of tasks agree on which list a node is on. `Placed s list` says that the pointers make up
the lists `list`, no two with a node in common, and that each task is on one that fits its state;
every call keeps it, with another `list`.

A task that waits while no other can run is not switched away from. It then returns from the wait
though nothing released it, and is still on the wait queue.

* `lists_and_waits_ok`: if `idle` does not wait, then in every state of a run each task is on the
  lists that its fields tell, and each wait that returned was released once, by what its code says.
-/

namespace Nonux.Core

open Nonux.Lib Nonux.Framework Links Links.Rings List

variable {Q : Type}

namespace SchedState

variable {s s' : SchedState Q} {list list' : ListHead Q → List (ListNode Q)} {h k : ListHead Q}
  {n : ListNode Q} {t u : Tid} {q : Q}

/-! ### The pointers make up lists -/

/-- The pointers make up the lists, with nodes of tasks that there are. -/
structure Linked (s : SchedState Q) (list : ListHead Q → List (ListNode Q)) : Prop where
  rings : s.links.Rings ListNode.head list
  known : ∀ {h n}, n ∈ list h → ∃ t < s.created, n = .sched t ∨ n = .deadline t

/-- A loop has turns enough for any nodes of the tasks. -/
theorem length_lt_turns {l : List (ListNode Q)} (hnodup : l.Nodup)
    (hl : ∀ n ∈ l, ∃ t < s.created, n = .sched t ∨ n = .deadline t) : l.length < s.turns := by
  have hsub : l ⊆ (List.range s.created).map .sched ++ (List.range s.created).map .deadline := by
    intro n hn
    obtain ⟨t, ht, rfl | rfl⟩ := hl n hn
    · simp [ht]
    · simp [ht]
  have hlen := (hnodup.subperm hsub).length_le
  rw [length_append, length_map, length_map, length_range] at hlen
  unfold turns
  omega

theorem Linked.length_lt (L : Linked s list) (h : ListHead Q) : (list h).length < s.turns :=
  length_lt_turns (L.rings.ring h).nodup.of_cons fun _ => L.known

theorem Linked.congr (L : Linked s list) (hlinks : s'.links = s.links)
    (hcreated : s'.created = s.created) : Linked s' list :=
  ⟨hlinks ▸ L.rings, hcreated ▸ L.known⟩

theorem Linked.off_of_le (L : Linked s list) (ht : s.created ≤ t) (h : ListHead Q) :
    .sched t ∉ list h ∧ .deadline t ∉ list h := by
  constructor
  all_goals
    intro hmem
    obtain ⟨u, hu, heq | heq⟩ := L.known hmem <;> cases heq
    omega

theorem linked_start (pol : Policy) : Linked (SchedState.start (Q := Q) pol) fun _ => [] :=
  ⟨⟨fun _ => ⟨by simp, ⟨rfl, rfl⟩⟩, by simp, by simp, fun _ _ heq => ListNode.head.inj heq⟩, by simp⟩

/-! ### Each task is in its place -/

/-- The list fits the task. -/
def InPlace (active : Policy) (c : SchedTask Q) : ListHead Q → Prop
  | .rr => active = .rr ∧ c.state ≠ .blocked
  | .prio _ => active = .priority ∧ c.state ≠ .blocked
  | .waitq q => c.state = .blocked ∧ c.waitQ = some q
  | .deadlines => False

structure Placed (s : SchedState Q) (list : ListHead Q → List (ListNode Q)) : Prop where
  linked : Linked s list
  sched : ∀ {t h}, .sched t ∈ list h → InPlace s.active (s.task t) h
  listed : ∀ {t}, t < s.created → ∃ h, .sched t ∈ list h
  deadline : ∀ {t h}, .deadline t ∈ list h ↔
    h = .deadlines ∧ t < s.created ∧ (s.task t).waitHasDeadline = true

/-- The fields that tell about the place of a task are the same. -/
def SamePlace (c c' : SchedTask Q) : Prop :=
  c'.state = c.state ∧ c'.waitQ = c.waitQ ∧ c'.waitHasDeadline = c.waitHasDeadline

variable {c c' : SchedTask Q}

theorem InPlace.congr {active : Policy} (hc : SamePlace c c') (hin : InPlace active c h) :
    InPlace active c' h := by
  obtain ⟨hstate, hq, -⟩ := hc
  cases h <;> simp_all [InPlace]

theorem Placed.congr (P : Placed s list) (hlinks : s'.links = s.links)
    (hcreated : s'.created = s.created) (hactive : s'.active = s.active)
    (htask : ∀ u, SamePlace (s.task u) (s'.task u)) : Placed s' list where
  linked := P.linked.congr hlinks hcreated
  sched hmem := hactive ▸ (P.sched hmem).congr (htask _)
  listed ht := P.listed (hcreated ▸ ht)
  deadline := by
    intro t h
    rw [P.deadline, hcreated, (htask t).2.2]

/-- One task goes to another place. -/
theorem Placed.move (P : Placed s list) (place : ListHead Q) (L : Linked s' list')
    (hcreated : s'.created = s.created) (hactive : s'.active = s.active)
    (hne : ∀ u ≠ t, ∀ k, (.sched u ∈ list' k ↔ .sched u ∈ list k) ∧
      (.deadline u ∈ list' k ↔ .deadline u ∈ list k))
    (hsched : ∀ k, .sched t ∈ list' k ↔ k = place)
    (hdeadline : ∀ k, .deadline t ∈ list' k ↔ k = .deadlines ∧ (s'.task t).waitHasDeadline = true)
    (htask : ∀ u ≠ t, SamePlace (s.task u) (s'.task u)) (hplace : InPlace s.active (s'.task t) place)
    (ht : t < s.created) : Placed s' list' where
  linked := L
  sched := by
    intro u h hmem
    rw [hactive]
    by_cases hu : u = t
    · subst hu
      rw [(hsched h).mp hmem]
      exact hplace
    · exact (P.sched (((hne u hu h).1).mp hmem)).congr (htask u hu)
  listed := by
    intro u hlt
    by_cases hu : u = t
    · exact ⟨place, hu ▸ (hsched place).mpr rfl⟩
    · obtain ⟨h, hmem⟩ := P.listed (hcreated ▸ hlt)
      exact ⟨h, ((hne u hu h).1).mpr hmem⟩
  deadline := by
    intro u h
    by_cases hu : u = t
    · subst hu
      rw [hdeadline, hcreated]
      simp [ht]
    · rw [(hne u hu h).2, P.deadline, hcreated, (htask u hu).2.2]

/-- A queue of the policy that is in charge. -/
def IsRunqueue (active : Policy) : ListHead Q → Prop
  | .rr => active = .rr
  | .prio _ => active = .priority
  | _ => False

theorem Placed.task_of_mem (P : Placed s list) (hrun : IsRunqueue s.active h) (hmem : n ∈ list h) :
    ∃ t < s.created, n = .sched t ∧ (s.task t).state ≠ .blocked := by
  obtain ⟨t, ht, rfl | rfl⟩ := P.linked.known hmem
  · refine ⟨t, ht, rfl, ?_⟩
    have := P.sched hmem
    cases h <;> simp_all [InPlace, IsRunqueue]
  · obtain ⟨rfl, -⟩ := P.deadline.mp hmem
    exact hrun.elim

theorem isRunqueue_of_mem_queues {pol : Policy} (hmem : h ∈ (pol.queues : List (ListHead Q))) :
    IsRunqueue pol h := by
  cases pol <;> simp [Policy.queues] at hmem
  · exact hmem ▸ rfl
  · obtain ⟨p, rfl⟩ := hmem
    rfl

/-- A task that is not blocked is on the runqueue. -/
theorem Placed.exists_queue (P : Placed s list) (ht : t < s.created)
    (hstate : (s.task t).state ≠ .blocked) : ∃ h ∈ s.active.queues, .sched t ∈ list h := by
  obtain ⟨h, hmem⟩ := P.listed ht
  have hin := P.sched hmem
  refine ⟨h, ?_, hmem⟩
  cases h <;> simp_all [InPlace, Policy.queues]

/-- Whoever is on a wait queue is blocked. -/
theorem Placed.blocked_of_mem (P : Placed s list) (hmem : n ∈ list (.waitq q)) :
    ∃ t < s.created, n = .sched t ∧ (s.task t).state = .blocked := by
  obtain ⟨t, ht, rfl | rfl⟩ := P.linked.known hmem
  · exact ⟨t, ht, rfl, (P.sched hmem).1⟩
  · cases (P.deadline.mp hmem).1

theorem Placed.timed_of_mem (P : Placed s list) (hmem : n ∈ list .deadlines) :
    ∃ t < s.created, n = .deadline t ∧ (s.task t).waitHasDeadline = true := by
  obtain ⟨t, ht, rfl | rfl⟩ := P.linked.known hmem
  · exact False.elim (P.sched hmem)
  · exact ⟨t, ht, rfl, (P.deadline.mp hmem).2.2⟩

theorem inPlace_defaultQueue (active : Policy) (hc : c.state ≠ .blocked) :
    InPlace active c active.defaultQueue := by
  cases active <;> exact ⟨rfl, hc⟩

/-! ### What holds of a task, and of a wait that has returned -/

/-- A task that is blocked waits, and nothing has released it yet. A task that is not, and is still
in its wait, was released once, by what `wait_woken` tells. -/
structure TaskOk (c : SchedTask Q) : Prop where
  waiting : c.state = .blocked → c.inWait = true ∧ c.causes = [] ∧ c.waitWoken = false
  released : c.inWait = true → c.state ≠ .blocked →
    (c.waitWoken = true ∧ c.causes = [.wake]) ∨ (c.waitWoken = false ∧ c.causes = [.deadline])
  timed : c.waitHasDeadline = true → c.state = .blocked
  balanced : c.preemptCount = if c.switchedOut then 1 else 0

/-- A wait returned what its release calls for. -/
def ReturnOk (e : Tid × Except Err Unit × List Cause) : Prop :=
  (e.2.1 = .ok () ∧ e.2.2 = [.wake]) ∨ (e.2.1 = .error .edeadline ∧ e.2.2 = [.deadline])

/-- What the steps of the scheduler keep, also inside of a wait. -/
structure Inv (s : SchedState Q) : Prop where
  placed : ∃ list, Placed s list
  tasks : ∀ t < s.created, TaskOk (s.task t)
  current : s.current < s.created
  running : (s.task s.current).switchedOut = false
  idleFree : (s.task idle).state ≠ .blocked
  returned : ∀ e ∈ s.completed, ReturnOk e

/-- The task that runs is not in a wait. -/
def Awake (s : SchedState Q) : Prop := (s.task s.current).inWait = false

theorem Inv.not_blocked (I : Inv s) (A : Awake s) :
    (s.task s.current).state ≠ .blocked := fun hstate => by
  rw [Awake, ((I.tasks _ I.current).waiting hstate).1] at A
  cases A

/-- All but `need_resched` is the same. -/
def Flagged (c c' : SchedTask Q) : Prop := ∃ b, c' = { c with needResched := b }

theorem Flagged.samePlace (hc : Flagged c c') : SamePlace c c' := by
  obtain ⟨b, rfl⟩ := hc
  exact ⟨rfl, rfl, rfl⟩

theorem TaskOk.flagged (ok : TaskOk c) (hc : Flagged c c') : TaskOk c' := by
  obtain ⟨b, rfl⟩ := hc
  exact { ok with }

/-- Only the flag of a task changes, and the policy's slice. -/
structure SameButFlags (s s' : SchedState Q) : Prop where
  task : ∀ u, Flagged (s.task u) (s'.task u)
  created : s'.created = s.created
  current : s'.current = s.current
  active : s'.active = s.active
  completed : s'.completed = s.completed

/-- A change of flags, slices and lists, to which the tasks are still true. -/
theorem Inv.flagged (I : Inv s) (F : SameButFlags s s') (P : ∃ list, Placed s' list) : Inv s' where
  placed := P
  tasks t ht := (I.tasks t (F.created ▸ ht)).flagged (F.task t)
  current := by rw [F.current, F.created]; exact I.current
  running := by
    obtain ⟨b, hb⟩ := F.task s.current
    rw [F.current, hb]
    exact I.running
  idleFree := by
    obtain ⟨b, hb⟩ := F.task idle
    rw [hb]
    exact I.idleFree
  returned := F.completed ▸ I.returned

theorem Awake.flagged (A : Awake s) (F : SameButFlags s s') : Awake s' := by
  obtain ⟨b, hb⟩ := F.task s.current
  rw [Awake, F.current, hb]
  exact A

theorem flagged_refl (c : SchedTask Q) : Flagged c c := ⟨c.needResched, rfl⟩

theorem SameButFlags.trans {s'' : SchedState Q} (F : SameButFlags s s') (F' : SameButFlags s' s'') :
    SameButFlags s s'' where
  task u := by
    obtain ⟨b, hb⟩ := F.task u
    obtain ⟨b', hb'⟩ := F'.task u
    exact ⟨b', by rw [hb', hb]⟩
  created := F'.created.trans F.created
  current := F'.current.trans F.current
  active := F'.active.trans F.active
  completed := F'.completed.trans F.completed

theorem sameButFlags_flag (s : SchedState Q) (t : Tid) (b : Bool) :
    SameButFlags s (s.setTask t fun c => { c with needResched := b }) := by
  refine ⟨fun u => ?_, rfl, rfl, rfl, rfl⟩
  by_cases hu : u = t
  · exact ⟨b, by rw [hu, setTask_self]⟩
  · rw [setTask_of_ne _ _ hu]
    exact flagged_refl _

theorem sameButFlags_policyTick (s : SchedState Q) (pol : Policy) : SameButFlags s (s.policyTick pol) ∧
    (s.policyTick pol).links = s.links := by
  unfold policyTick
  dsimp only
  split_ifs
  · have F := sameButFlags_flag s s.current true
    exact ⟨⟨F.task, rfl, rfl, rfl, rfl⟩, rfl⟩
  · exact ⟨⟨fun _ => flagged_refl _, rfl, rfl, rfl, rfl⟩, rfl⟩

/-! ### Changing one task -/

variable {f : SchedTask Q → SchedTask Q}

theorem Placed.setTask (P : Placed s list) (hplace : ∀ c, SamePlace c (f c)) :
    Placed (s.setTask t f) list := by
  refine P.congr rfl rfl rfl fun u => ?_
  by_cases hu : u = t
  · rw [hu, setTask_self]
    exact hplace _
  · rw [setTask_of_ne _ _ hu]
    exact ⟨rfl, rfl, rfl⟩

theorem taskOk_setTask (htasks : ∀ u < s.created, TaskOk (s.task u))
    (hok : TaskOk (s.task t) → TaskOk (f (s.task t))) :
    ∀ u < s.created, TaskOk ((s.setTask t f).task u) := by
  intro u hlt
  by_cases hu : u = t
  · rw [hu, setTask_self]
    exact hok (htasks t (hu ▸ hlt))
  · rw [setTask_of_ne _ _ hu]
    exact htasks u hlt

theorem state_setTask (s : SchedState Q) (t u : Tid) (hf : ∀ c, (f c).state = c.state) :
    ((s.setTask t f).task u).state = (s.task u).state := by
  by_cases hu : u = t
  · rw [hu, setTask_self, hf]
  · rw [setTask_of_ne _ _ hu]

/-- The task that is switched away from is left with its count raised, and the other one lowers its
own. -/
theorem Inv.switchTo (I : Inv s) {next : Tid} (hnext : next < s.created) (hne : next ≠ s.current) :
    Inv (s.switchTo next) ∧ (s.switchTo next).current = next ∧
      ((s.switchTo next).task next).state = (s.task next).state := by
  obtain ⟨list, P⟩ := I.placed
  set save : SchedTask Q → SchedTask Q :=
    fun c => { c with preemptCount := c.preemptCount + 1, switchedOut := true } with hsave
  have hother : (s.setTask s.current save).task next = s.task next := setTask_of_ne _ _ hne
  have P₁ : Placed { s.setTask s.current save with current := next } list :=
    (P.setTask (t := s.current) (f := save) fun _ => ⟨rfl, rfl, rfl⟩).congr rfl rfl rfl
      fun _ => ⟨rfl, rfl, rfl⟩
  have htasks := taskOk_setTask (t := s.current) (f := save) I.tasks fun ok =>
    ⟨ok.waiting, ok.released, ok.timed, by simp [hsave, ok.balanced, I.running]⟩
  have hidle : ((s.setTask s.current save).task idle).state ≠ .blocked :=
    (state_setTask s s.current idle (f := save) fun _ => rfl) ▸ I.idleFree
  unfold SchedState.switchTo
  rw [← hsave]
  dsimp only
  rw [hother]
  by_cases hout : (s.task next).switchedOut = true
  · rw [if_pos hout]
    refine ⟨⟨⟨list, P₁.setTask fun _ => ⟨rfl, rfl, rfl⟩⟩, ?_, hnext, ?_, ?_, I.returned⟩, rfl, ?_⟩
    · refine taskOk_setTask (s := { s.setTask s.current save with current := next }) htasks fun ok => ?_
      refine ⟨ok.waiting, ok.released, ok.timed, ?_⟩
      have hcount := ok.balanced
      rw [hother, hout, if_pos rfl] at hcount
      simp [hother, hcount]
    · exact congrArg SchedTask.switchedOut (setTask_self _ _ _)
    · rw [state_setTask _ _ _ (by simp)]
      exact hidle
    · rw [setTask_self]
      exact congrArg (·.state) hother
  · rw [if_neg hout]
    refine ⟨⟨⟨list, P₁⟩, htasks, hnext, ?_, hidle, I.returned⟩, rfl, congrArg (·.state) hother⟩
    exact (congrArg SchedTask.switchedOut hother).trans (Bool.eq_false_iff.mpr hout)

/-- A task that can run returns from its wait as it was released. -/
theorem Inv.finishWait (I : Inv s) (hstate : (s.task s.current).state ≠ .blocked) :
    Inv s.finishWait ∧ Awake s.finishWait := by
  obtain ⟨list, P⟩ := I.placed
  set clear : SchedTask Q → SchedTask Q := fun c => { c with inWait := false } with hclear
  unfold SchedState.finishWait
  rw [← hclear]
  dsimp only
  by_cases hwait : (s.task s.current).inWait = true
  · rw [if_pos hwait]
    have hself := setTask_self s s.current clear
    refine ⟨⟨⟨list, ?_⟩, ?_, I.current, ?_, ?_, fun e he => ?_⟩, ?_⟩
    · exact (P.setTask (t := s.current) (f := clear) fun _ => ⟨rfl, rfl, rfl⟩).congr rfl rfl rfl
        fun _ => ⟨rfl, rfl, rfl⟩
    · exact taskOk_setTask (t := s.current) (f := clear) I.tasks fun ok =>
        ⟨fun h => absurd h hstate, by simp [hclear], ok.timed, ok.balanced⟩
    · exact (congrArg SchedTask.switchedOut hself).trans I.running
    · exact (state_setTask s s.current idle (f := clear) fun _ => rfl) ▸ I.idleFree
    · rcases mem_append.mp he with he | he
      · exact I.returned e he
      · obtain rfl := mem_singleton.mp he
        rcases (I.tasks _ I.current).released hwait hstate with ⟨hw, hc⟩ | ⟨hw, hc⟩
        · exact .inl ⟨if_pos hw, hc⟩
        · exact .inr ⟨if_neg (by simp [hw]), hc⟩
    · exact congrArg SchedTask.inWait hself
  · rw [if_neg hwait]
    exact ⟨I, by simpa [Awake] using hwait⟩

theorem SameButFlags.state_eq (F : SameButFlags s s') (t : Tid) :
    (s'.task t).state = (s.task t).state := by
  obtain ⟨b, hb⟩ := F.task t
  rw [hb]

/-- A change of flags and slices alone. -/
theorem Inv.sameLinks (I : Inv s) (F : SameButFlags s s') (hlinks : s'.links = s.links) : Inv s' := by
  obtain ⟨list, P⟩ := I.placed
  exact I.flagged F ⟨list, P.congr hlinks F.created F.active fun u => (F.task u).samePlace⟩

/-- Raising the flag, as `nx_task_yield` begins. -/
theorem Inv.raise (I : Inv s) : Inv (s.setTask s.current fun c => { c with needResched := true }) :=
  I.sameLinks (sameButFlags_flag s s.current true) rfl

/-- One task goes to another place, and its fields with it. -/
theorem Inv.move (I : Inv s) (P : ∃ list, Placed s' list) (hcreated : s'.created = s.created)
    (hcurrent : s'.current = s.current) (hcompleted : s'.completed = s.completed)
    (htask : ∀ u ≠ t, Flagged (s.task u) (s'.task u)) (hok : TaskOk (s'.task t))
    (hout : (s'.task t).switchedOut = (s.task t).switchedOut)
    (hidle : t = idle → (s'.task t).state ≠ .blocked) : Inv s' where
  placed := P
  tasks u hlt := by
    by_cases hu : u = t
    · exact hu ▸ hok
    · exact (I.tasks u (hcreated ▸ hlt)).flagged (htask u hu)
  current := by rw [hcurrent, hcreated]; exact I.current
  running := by
    rw [hcurrent]
    by_cases hu : s.current = t
    · rw [hu, hout, ← hu]
      exact I.running
    · obtain ⟨b, hb⟩ := htask _ hu
      rw [hb]
      exact I.running
  idleFree := by
    by_cases hu : idle = t
    · exact hu ▸ hidle hu.symm
    · obtain ⟨b, hb⟩ := htask _ hu
      rw [hb]
      exact I.idleFree
  returned := hcompleted ▸ I.returned

/-! ### Linking and walking -/

variable [DecidableEq Q]

/-- A loop over a list finds its nodes. -/
theorem Linked.nodes_eq (L : Linked s list) (h : ListHead Q) : s.nodes h = list h :=
  (L.rings.ring h).walk_eq (L.length_lt h)

theorem Linked.unlink (L : Linked s list) (hn : n ∈ list h) : Linked (s.unlink n) (dropped list n) :=
  ⟨L.rings.remove hn, fun hmem => L.known (L.rings.mem_dropped.mp hmem).2⟩

theorem Linked.addTail (L : Linked s list) (h : ListHead Q) (hoff : ∀ k, n ∉ list k)
    (hn : ∃ t < s.created, n = .sched t ∨ n = .deadline t) :
    Linked (s.addTail h n) (added list h n) := by
  refine ⟨L.rings.addTail h hoff fun k hk => ?_, fun hmem => ?_⟩
  · obtain ⟨t, -, rfl | rfl⟩ := hn <;> cases hk
  · rcases mem_added.mp hmem with hmem | ⟨rfl, -⟩
    · exact L.known hmem
    · exact hn

theorem Linked.onQueue_iff (L : Linked s list) {pol : Policy} :
    s.onQueue pol t = true ↔ ∃ h ∈ pol.queues, .sched t ∈ list h := by
  simp only [onQueue, L.nodes_eq, any_eq_true, decide_eq_true_eq]

theorem Linked.taskPriority_eq_some (L : Linked s list) {p : Fin 8} (hp : s.taskPriority t = some p) :
    .sched t ∈ list (.prio p) := by
  have := find?_some hp
  rwa [decide_eq_true_eq, L.nodes_eq] at this

/-- The first node of a list that is not empty. -/
theorem Linked.next_mem (L : Linked s list) (hne : s.links.isEmpty (.head h) = false) :
    s.links.next (.head h) ∈ list h := by
  have hlist : list h ≠ [] := fun hnil => by
    rw [(L.rings.ring h).isEmpty_iff.mpr hnil] at hne
    cases hne
  obtain ⟨x, l, hx⟩ := exists_cons_of_ne_nil hlist
  have hseg := (L.rings.ring h).seg
  rw [hx] at hseg ⊢
  rw [hseg.1.1]
  exact mem_cons_self

/-- Enqueueing a task that is on no list. -/
theorem enqueue_of_off (L : Linked s list) (hoff : ∀ k, .sched t ∉ list k) (pol : Policy) :
    (s.enqueue pol t).links = (s.addTail pol.defaultQueue (.sched t)).links ∧
    SameButFlags s (s.enqueue pol t) := by
  have hq : s.onQueue pol t = false := by
    rw [Bool.eq_false_iff, ne_eq, L.onQueue_iff]
    rintro ⟨h, -, hmem⟩
    exact hoff h hmem
  rw [enqueue, hq, if_neg (by simp)]
  dsimp only
  split_ifs
  · have F := sameButFlags_flag (s.addTail pol.defaultQueue (.sched t)) s.current true
    exact ⟨rfl, F.task, F.created, F.current, F.active, F.completed⟩
  · exact ⟨rfl, fun u => flagged_refl _, rfl, rfl, rfl, rfl⟩

/-! ### The policies -/

/-- A node that is on a list, and no other, after it has been taken out and linked in again. -/
theorem Linked.relink (L : Linked s list) (hmem : n ∈ list h) (k : ListHead Q) :
    Linked ((s.unlink n).addTail k n) (added (dropped list n) k n) :=
  (L.unlink hmem).addTail k (fun _ hk' => (L.rings.mem_dropped.mp hk').1 rfl) (L.known hmem)

theorem mem_relink (L : Linked s list) {n' : ListNode Q} {k' : ListHead Q} :
    n' ∈ added (dropped list n) k n k' ↔ (n' ≠ n ∧ n' ∈ list k') ∨ n' = n ∧ k' = k := by
  rw [mem_added, L.rings.mem_dropped]

/-- Moving a task of the runqueue to the end of a queue. -/
theorem Placed.relink (P : Placed s list) (hrun : IsRunqueue s.active h) (hmem : n ∈ list h)
    (hrun' : IsRunqueue s.active k) :
    Placed ((s.unlink n).addTail k n) (added (dropped list n) k n) := by
  obtain ⟨t, ht, rfl, hstate⟩ := P.task_of_mem hrun hmem
  have hplace : InPlace s.active (s.task t) k := by
    cases k <;> simp_all [InPlace, IsRunqueue]
  refine P.move k (P.linked.relink hmem k) rfl rfl (fun u hu k' => ?_) (fun k' => ?_) (fun k' => ?_)
    (fun _ _ => ⟨rfl, rfl, rfl⟩) hplace ht
  · rw [mem_relink P.linked, mem_relink P.linked]
    simp [hu]
  · rw [mem_relink P.linked]
    simp
  · rw [mem_relink P.linked, P.deadline]
    simp [SchedState.addTail, SchedState.unlink, ht]

theorem sameButFlags_rotate (s : SchedState Q) (pol : Policy) (h : ListHead Q) (n : ListNode Q) :
    SameButFlags s (s.rotate pol h n) := ⟨fun _ => flagged_refl _, rfl, rfl, rfl, rfl⟩

/-- Yielding moves one task of the runqueue. -/
theorem Inv.policyYield (I : Inv s) :
    Inv (s.policyYield s.active) ∧ SameButFlags s (s.policyYield s.active) := by
  obtain ⟨list, P⟩ := I.placed
  have hrotate : ∀ {pol h n}, IsRunqueue s.active h → n ∈ list h →
      Inv (s.rotate pol h n) ∧ SameButFlags s (s.rotate pol h n) := fun hrun hmem =>
    ⟨I.flagged (sameButFlags_rotate ..) ⟨_, (P.relink hrun hmem hrun).congr rfl rfl rfl
      fun _ => ⟨rfl, rfl, rfl⟩⟩, sameButFlags_rotate ..⟩
  have hsame : SameButFlags s s := ⟨fun _ => flagged_refl _, rfl, rfl, rfl, rfl⟩
  cases hactive : s.active with
  | rr =>
    rw [SchedState.policyYield]
    split_ifs with hempty
    · exact ⟨I, hsame⟩
    · exact hrotate hactive (P.linked.next_mem (by simpa using hempty))
  | priority =>
    rw [SchedState.policyYield]
    split
    · next p hp => exact hrotate hactive (P.linked.taskPriority_eq_some hp)
    · split
      · next p hp =>
        have hempty := find?_some hp
        exact hrotate hactive (P.linked.next_mem (by simpa using hempty))
      · exact ⟨I, hsame⟩

/-- What is picked can run. -/
theorem Inv.pickNext_eq_some (I : Inv s) (ht : s.pickNext s.active = some t) :
    t < s.created ∧ (s.task t).state ≠ .blocked := by
  obtain ⟨list, P⟩ := I.placed
  obtain ⟨h, hh, hfind⟩ := exists_of_findSome?_eq_some ht
  obtain ⟨n, hn, hrun⟩ := exists_of_findSome?_eq_some hfind
  rw [P.linked.nodes_eq] at hn
  obtain ⟨u, hu, rfl, hstate⟩ := P.task_of_mem (isRunqueue_of_mem_queues (mem_reverse.mp hh)) hn
  obtain rfl : u = t := by simpa [runnable, hstate] using hrun
  exact ⟨hu, hstate⟩

/-- As `idle` is not blocked, a task is picked. -/
theorem Inv.pickNext_ne_none (I : Inv s) : s.pickNext s.active ≠ none := by
  obtain ⟨list, P⟩ := I.placed
  obtain ⟨h, hh, hmem⟩ := P.exists_queue (Nat.zero_lt_of_lt I.current) I.idleFree
  intro hnone
  have hqueue := findSome?_eq_none_iff.mp hnone h (mem_reverse.mpr hh)
  have hnode := findSome?_eq_none_iff.mp hqueue (.sched idle) (by rwa [P.linked.nodes_eq])
  simp [runnable, I.idleFree] at hnode

/-! ### Switching -/

/-- What `sched_check_resched` does: the flag and the queue change, and if another task is picked,
it goes on. -/
theorem Inv.schedCheckResched_cases (I : Inv s) : ∃ s₁, Inv s₁ ∧ SameButFlags s s₁ ∧
    ((s.schedCheckResched = s₁ ∧
        ((s.task s.current).needResched = true → ∀ t, s₁.pickNext s₁.active = some t → t = s.current)) ∨
      ∃ next ≠ s₁.current, s₁.pickNext s₁.active = some next ∧
      s.schedCheckResched = s₁.switchTo next) := by
  unfold SchedState.schedCheckResched
  have hcount : ¬ 0 < (s.task s.current).preemptCount := by
    simp [(I.tasks _ I.current).balanced, I.running]
  by_cases hneed : (s.task s.current).needResched = false
  · rw [if_pos hneed]
    exact ⟨s, I, ⟨fun _ => flagged_refl _, rfl, rfl, rfl, rfl⟩,
      .inl ⟨rfl, fun h => by simp [hneed] at h⟩⟩
  rw [if_neg hneed, if_neg hcount]
  have F₁ := sameButFlags_flag s s.current false
  set s₁ := s.setTask s.current fun c => { c with needResched := false }
  have I₁ : Inv s₁ := I.sameLinks F₁ rfl
  obtain ⟨I₂, F₂⟩ := I₁.policyYield
  dsimp only
  set s₂ := s₁.policyYield s₁.active
  refine ⟨s₂, I₂, F₁.trans F₂, ?_⟩
  cases hpick : s₂.pickNext s₂.active with
  | none => exact .inl ⟨rfl, by simp⟩
  | some next =>
    dsimp only
    split_ifs with hnext
    · refine .inl ⟨rfl, fun _ t ht => ?_⟩
      rw [← Option.some.inj ht, hnext]
      exact F₂.current
    · exact .inr ⟨next, hnext, rfl, rfl⟩

/-- `sched_check_resched` goes on in a task that can run: the same one, or one from the runqueue. -/
theorem Inv.schedCheckResched (I : Inv s)
    (hstate : (s.task s.current).state = .blocked → (s.task s.current).needResched = true) :
    Inv s.schedCheckResched ∧
      (s.schedCheckResched.task s.schedCheckResched.current).state ≠ .blocked := by
  obtain ⟨s₁, I₁, F, ⟨heq, hpick⟩ | ⟨next, hne, hpick, heq⟩⟩ := I.schedCheckResched_cases
  · rw [heq]
    refine ⟨I₁, fun hblocked => ?_⟩
    rw [F.current, F.state_eq] at hblocked
    obtain ⟨u, hu⟩ := Option.ne_none_iff_exists'.mp I₁.pickNext_ne_none
    obtain rfl := hpick (hstate hblocked) u hu
    exact (I₁.pickNext_eq_some hu).2 (F.state_eq _ ▸ hblocked)
  · obtain ⟨hlt, hrun⟩ := I₁.pickNext_eq_some hpick
    obtain ⟨I₂, hcur, hst⟩ := I₁.switchTo hlt hne
    rw [heq, hcur, hst]
    exact ⟨I₂, hrun⟩

/-- Yielding ends in a task that is not in a wait. -/
theorem Inv.nxTaskYield (I : Inv s) : Inv s.nxTaskYield ∧ Awake s.nxTaskYield := by
  obtain ⟨I', hrun⟩ := I.raise.schedCheckResched fun _ => congrArg SchedTask.needResched
    (setTask_self s s.current _)
  exact I'.finishWait hrun

/-! ### Waiting -/

/-- The task that runs goes to a wait queue, and to the list of deadlines if it has one. -/
theorem Inv.waitqRegister (I : Inv s) (A : Awake s) (hne : s.current ≠ idle) (q : Q) (deadline : Bool) :
    Inv (s.waitqRegister q deadline) := by
  obtain ⟨list, P⟩ := I.placed
  have hstate := I.not_blocked A
  have hok := I.tasks _ I.current
  have htimed : ∀ k, .deadline s.current ∉ list k :=
    fun k hmem => hstate (hok.timed (P.deadline.mp hmem).2.2)
  obtain ⟨h, hh, hmem⟩ := P.exists_queue I.current hstate
  have hdequeue : s.dequeue s.active s.current = s.unlink (.sched s.current) :=
    if_pos (P.linked.onQueue_iff.mpr ⟨h, hh, hmem⟩)
  have L := P.linked.relink hmem (.waitq q)
  -- the lists, with the node for the deadline if there is one
  obtain ⟨m, list', hm, L', hlist'⟩ : ∃ m list',
      (if deadline then ((s.unlink (.sched s.current)).addTail (.waitq q)
        (.sched s.current)).addTail .deadlines
          (.deadline s.current) else (s.unlink (.sched s.current)).addTail (.waitq q)
            (.sched s.current)) =
        { s with links := m } ∧ Linked { s with links := m } list' ∧
      ∀ n k, n ∈ list' k ↔ ((n ≠ .sched s.current ∧ n ∈ list k) ∨ n = .sched s.current ∧ k = .waitq q) ∨
        deadline = true ∧ n = .deadline s.current ∧ k = .deadlines := by
    cases deadline
    · exact ⟨_, _, rfl, L, fun n k => by simp [mem_relink P.linked]⟩
    · refine ⟨_, _, rfl, L.addTail .deadlines (fun k hk => ?_) ⟨s.current, I.current, .inr rfl⟩,
        fun n k => ?_⟩
      · rw [mem_relink P.linked] at hk
        simp [htimed] at hk
      · simp [mem_relink P.linked, mem_added]
  have hregister : s.waitqRegister q deadline = ({ s with links := m } : SchedState Q).setTask
    s.current fun c =>
      { c with
        state := .blocked, waitQ := some q, waitWoken := false, waitHasDeadline := deadline,
          inWait := true, causes := [] } := by
    rw [← hm, SchedState.waitqRegister, hdequeue]
  rw [hregister]
  refine I.move (t := s.current) ⟨list', P.move (t := s.current) (.waitq q) (L'.congr rfl rfl) rfl rfl
    (fun u hu k => ?_) (fun k => ?_) (fun k => ?_) (fun u hu => ?_) ?_ I.current⟩ rfl rfl rfl
      (fun u hu => ?_) ?_ ?_
    fun hidle => absurd hidle hne
  · simp [hlist', hu]
  · simp [hlist']
  · simp [hlist', htimed, and_comm]
  · rw [setTask_of_ne _ _ hu]
    exact ⟨rfl, rfl, rfl⟩
  · rw [setTask_self]
    exact ⟨rfl, rfl⟩
  · rw [setTask_of_ne _ _ hu]
    exact flagged_refl _
  · rw [setTask_self]
    exact ⟨fun _ => ⟨rfl, rfl, rfl⟩, fun _ h => absurd rfl h, fun _ => rfl, hok.balanced⟩
  · rw [setTask_self]

/-! ### Releasing -/

/-- Both nodes of a task that is blocked are taken out. -/
def released (s : SchedState Q) (t : Tid) : SchedState Q :=
  if (s.task t).waitHasDeadline then (s.unlink (.sched t)).unlink (.deadline t) else s.unlink (.sched t)

theorem Placed.released (P : Placed s list) (ht : t < s.created) :
    ∃ m, s.released t = { s with links := m } ∧
    Linked { s with links := m } (dropped (dropped list (.sched t)) (.deadline t)) := by
  obtain ⟨h, hmem⟩ := P.listed ht
  have L := P.linked.unlink hmem
  unfold SchedState.released
  by_cases hdeadline : (s.task t).waitHasDeadline = true
  · rw [if_pos hdeadline]
    have hmem' : .deadline t ∈ dropped list (.sched t) .deadlines :=
      P.linked.rings.mem_dropped.mpr ⟨by simp, P.deadline.mpr ⟨rfl, ht, hdeadline⟩⟩
    exact ⟨_, rfl, L.unlink hmem'⟩
  · rw [if_neg hdeadline]
    have hoff : dropped (dropped list (.sched t)) (.deadline t) = dropped list (.sched t) := by
      refine funext fun k => erase_of_not_mem fun hmem => hdeadline ?_
      exact (P.deadline.mp (P.linked.rings.mem_dropped.mp hmem).2).2.2
    rw [hoff]
    exact ⟨_, rfl, L⟩

/-- The tasks and the lists after `t` has been made ready by `f`. -/
structure Readied (s s' : SchedState Q) (t : Tid) (f : SchedTask Q → SchedTask Q) : Prop where
  self : Flagged (f (s.task t)) (s'.task t)
  others : ∀ u ≠ t, Flagged (s.task u) (s'.task u)
  created : s'.created = s.created
  current : s'.current = s.current
  nodes : ∀ h ≠ s.active.defaultQueue, s'.nodes h = ((s.nodes h).erase (.sched t)).erase (.deadline t)

/-- A task that is blocked is put on the runqueue, by a wake or by its deadline. -/
theorem Inv.ready (I : Inv s) (ht : t < s.created) (hstate : (f (s.task t)).state ≠ .blocked)
    (hdeadline : (f (s.task t)).waitHasDeadline = false) (hok : TaskOk (f (s.task t)))
    (hout : (f (s.task t)).switchedOut = (s.task t).switchedOut) :
    Inv (((s.released t).setTask t f).enqueue s.active t) ∧
      Readied s (((s.released t).setTask t f).enqueue s.active t) t f := by
  obtain ⟨list, P⟩ := I.placed
  obtain ⟨m, hm, L₁⟩ := P.released ht
  rw [hm]
  set list₁ := dropped (dropped list (.sched t)) (.deadline t)
  have hlist₁ : ∀ n k, n ∈ list₁ k ↔ n ≠ .deadline t ∧ n ≠ .sched t ∧ n ∈ list k := fun n k => by
    have hnodup := ((P.linked.rings.ring k).nodup.of_cons).erase (.sched t)
    exact hnodup.mem_erase_iff.trans (and_congr_right fun _ => P.linked.rings.mem_dropped)
  set s₁ : SchedState Q := ({ s with links := m } : SchedState Q).setTask t f with hs₁
  have hoff : ∀ k, .sched t ∉ list₁ k := fun k hmem => ((hlist₁ _ _).mp hmem).2.1 rfl
  have L₁' : Linked s₁ list₁ := L₁.congr rfl rfl
  obtain ⟨hlinks, F⟩ := enqueue_of_off L₁' hoff s.active
  set s₂ := s₁.enqueue s.active t
  have hself : Flagged (f (s.task t)) (s₂.task t) := by
    have := F.task t
    rwa [hs₁, setTask_self] at this
  have hothers : ∀ u ≠ t, Flagged (s.task u) (s₂.task u) := fun u hu => by
    have := F.task u
    rwa [hs₁, setTask_of_ne _ _ hu] at this
  have L₂ : Linked s₂ (added list₁ s.active.defaultQueue (.sched t)) :=
    (L₁'.addTail s.active.defaultQueue hoff ⟨t, ht, .inl rfl⟩).congr hlinks F.created
  obtain ⟨hstate₂, -, hdeadline₂⟩ := hself.samePlace
  refine ⟨I.move (t := t) ⟨_, P.move s.active.defaultQueue L₂ F.created F.active (fun u hu k => ?_)
    (fun k => ?_)
    (fun k => ?_) (fun u hu => (hothers u hu).samePlace) ?_ ht⟩ F.created F.current F.completed
      hothers (hok.flagged hself)
    ?_ fun _ => hstate₂ ▸ hstate, hself, hothers, F.created, F.current, fun k hk => ?_⟩
  · simp [mem_added, hlist₁, hu]
  · simp [mem_added, hlist₁]
  · simp [mem_added, hlist₁, hdeadline₂, hdeadline]
  · exact inPlace_defaultQueue _ (hstate₂ ▸ hstate)
  · obtain ⟨b, hb⟩ := hself
    rw [hb]
    exact hout
  · rw [L₂.nodes_eq, P.linked.nodes_eq, added, if_neg hk]
    rfl

/-- What a wake does to the fields of a task. -/
def woken (c : SchedTask Q) : SchedTask Q :=
  { c with state := .ready, waitQ := none, waitHasDeadline := false, waitWoken := true, causes := c.causes ++ [.wake] }

/-- What an exceeded deadline does to the fields of a task. -/
def expired (c : SchedTask Q) : SchedTask Q :=
  { c with state := .ready, waitQ := none, waitHasDeadline := false, causes := c.causes ++ [.deadline] }

theorem Inv.waitqReleaseLocked (I : Inv s) (ht : t < s.created) (hblocked : (s.task t).state = .blocked) :
    Inv (s.waitqReleaseLocked t) ∧ Readied s (s.waitqReleaseLocked t) t woken := by
  have hok := I.tasks t ht
  obtain ⟨hwait, hcauses, -⟩ := hok.waiting hblocked
  have hready : TaskOk (woken (s.task t)) :=
    ⟨by simp [woken], fun _ _ => .inl ⟨rfl, by simp [woken, hcauses]⟩, by simp [woken], hok.balanced⟩
  have hactive : (s.released t).active = s.active := by
    unfold SchedState.released
    split_ifs <;> rfl
  have := I.ready ht (by simp [woken]) rfl hready rfl
  rwa [← hactive] at this

theorem Inv.expire (I : Inv s) (ht : t < s.created) (hdeadline : (s.task t).waitHasDeadline = true) :
    Inv (s.expire t) ∧ Readied s (s.expire t) t expired := by
  have hok := I.tasks t ht
  obtain ⟨hwait, hcauses, hwoken⟩ := hok.waiting (hok.timed hdeadline)
  have hready : TaskOk (expired (s.task t)) :=
    ⟨by simp [expired], fun _ _ => .inr ⟨hwoken, by simp [expired, hcauses]⟩, by simp [expired], hok.balanced⟩
  have := I.ready ht (by simp [expired]) rfl hready rfl
  rwa [SchedState.released, if_pos hdeadline] at this

theorem Readied.awake (R : Readied s s' t f) (hf : ∀ c, (f c).inWait = c.inWait) (A : Awake s) :
    Awake s' := by
  unfold Awake
  rw [R.current]
  by_cases hu : s.current = t
  · obtain ⟨b, hb⟩ := R.self
    rw [hu, hb]
    exact (hf _).trans (hu ▸ A)
  · obtain ⟨b, hb⟩ := R.others _ hu
    rw [hb]
    exact A

/-! ### Wakes and ticks -/

theorem Inv.nxWaitqWakeOne (I : Inv s) (A : Awake s) (q : Q) :
    Inv (s.nxWaitqWakeOne q) ∧ Awake (s.nxWaitqWakeOne q) := by
  unfold SchedState.nxWaitqWakeOne
  split_ifs with hempty
  · exact ⟨I, A⟩
  · obtain ⟨list, P⟩ := I.placed
    obtain ⟨t, ht, hn, hblocked⟩ := P.blocked_of_mem (P.linked.next_mem (by simpa using hempty))
    obtain ⟨I', R⟩ := I.waitqReleaseLocked ht hblocked
    rw [hn]
    exact ⟨I', R.awake (fun _ => rfl) A⟩

/-- A wake takes the first task from the queue. -/
theorem Inv.nodes_nxWaitqWakeOne (I : Inv s) (hempty : s.links.isEmpty (.head (.waitq q)) = false) :
    (s.nxWaitqWakeOne q).nodes (.waitq q) = (s.nodes (.waitq q)).tail ∧ s.nodes (.waitq q) ≠ [] := by
  obtain ⟨list, P⟩ := I.placed
  have hmem := P.linked.next_mem hempty
  obtain ⟨t, ht, hn, hblocked⟩ := P.blocked_of_mem hmem
  obtain ⟨-, R⟩ := I.waitqReleaseLocked ht hblocked
  have hring := P.linked.rings.ring (.waitq q)
  unfold SchedState.nxWaitqWakeOne
  rw [hempty, if_neg (by simp), hn]
  rw [hn] at hmem
  rw [R.nodes _ (by cases s.active <;> simp [Policy.defaultQueue]), P.linked.nodes_eq]
  obtain ⟨x, l, hx⟩ := exists_cons_of_ne_nil (ne_nil_of_mem hmem)
  have hx' : x = .sched t := by
    have hnext := hring.seg.next_eq
    rw [hx, hn] at hnext
    exact hnext.symm
  refine ⟨?_, by simp [hx]⟩
  rw [hx, hx', erase_cons_head, erase_of_not_mem, tail_cons]
  intro hdeadline
  have : .deadline t ∈ list (.waitq q) := hx ▸ mem_cons_of_mem _ hdeadline
  cases (P.deadline.mp this).1

/-- The loop of `nx_waitq_wake_all` ends with the queue empty. -/
theorem Inv.wakeLoop (q : Q) (turns : ℕ) :
    ∀ {s : SchedState Q}, Inv s → Awake s → (s.nodes (.waitq q)).length < turns →
    Inv (wakeLoop q turns s) ∧ Awake (wakeLoop q turns s) ∧
      (wakeLoop q turns s).nodes (.waitq q) = [] := by
  induction turns with
  | zero => exact fun _ _ hturns => absurd hturns (Nat.not_lt_zero _)
  | succ turns ih =>
    intro s I A hturns
    rw [SchedState.wakeLoop]
    split_ifs with hempty
    · obtain ⟨list, P⟩ := I.placed
      refine ⟨I, A, ?_⟩
      rw [P.linked.nodes_eq]
      exact (P.linked.rings.ring _).isEmpty_iff.mp hempty
    · obtain ⟨I', A'⟩ := I.nxWaitqWakeOne A q
      obtain ⟨htail, hne⟩ := I.nodes_nxWaitqWakeOne (Bool.eq_false_iff.mpr hempty)
      refine ih I' A' ?_
      have hpos := length_pos_iff.mpr hne
      rw [htail, length_tail]
      omega

/-- One turn of the loop over the deadlines: the node is taken out if its deadline is exceeded. -/
theorem Inv.tickNode (I : Inv s) (A : Awake s) (exceeded : Tid → Bool)
    (hmem : .deadline t ∈ s.nodes .deadlines) :
    Inv (s.tickNode exceeded (.deadline t)) ∧ Awake (s.tickNode exceeded (.deadline t)) ∧
      (s.tickNode exceeded (.deadline t)).nodes .deadlines =
        if exceeded t then (s.nodes .deadlines).erase (.deadline t) else s.nodes .deadlines := by
  obtain ⟨list, P⟩ := I.placed
  rw [P.linked.nodes_eq] at hmem
  obtain ⟨-, ht, hdeadline⟩ := P.deadline.mp hmem
  unfold SchedState.tickNode
  dsimp only
  split_ifs
  · obtain ⟨I', R⟩ := I.expire ht hdeadline
    refine ⟨I', R.awake (fun _ => rfl) A, ?_⟩
    rw [R.nodes _ (by cases s.active <;> simp [Policy.defaultQueue]), P.linked.nodes_eq]
    have hoff : .sched t ∉ list .deadlines := fun hsched => P.sched hsched
    rw [erase_of_not_mem hoff]
  · exact ⟨I, A, rfl⟩

variable (exceeded : Tid → Bool)

/-- The loop over the deadlines, with the nodes `l` behind it and `l'` in front: it ends when it is
back at the head, and what it has left is not exceeded. -/
theorem Inv.tickLoop (turns : ℕ) : ∀ {s : SchedState Q} {l l' : List (ListNode Q)},
    Inv s → Awake s → s.nodes .deadlines = l ++ l' → (∀ u, .deadline u ∈ l → exceeded u = false) →
      l'.length < turns →
    let s' := tickLoop exceeded turns (l'.headD (.head .deadlines))
      (s.links.next (l'.headD (.head .deadlines))) s
    Inv s' ∧ Awake s' ∧ ∀ u, .deadline u ∈ s'.nodes .deadlines → exceeded u = false := by
  induction turns with
  | zero => exact fun _ _ _ _ hturns => absurd hturns (Nat.not_lt_zero _)
  | succ turns ih =>
    intro s l l' I A hnodes hleft hturns
    obtain ⟨list, P⟩ := I.placed
    have hring := P.linked.rings.ring .deadlines
    rw [← P.linked.nodes_eq, hnodes] at hring
    cases l' with
    | nil =>
      rw [append_nil] at hnodes
      simpa [SchedState.tickLoop, hnodes] using ⟨I, A, hleft⟩
    | cons n l' =>
      obtain ⟨t, ht, rfl, -⟩ := P.timed_of_mem (n := n) (by rw [← P.linked.nodes_eq, hnodes]; simp)
      have hnext := (seg_append.mp hring.seg).2.next_eq
      have hl : .deadline t ∉ l := fun hmem =>
        (nodup_append.mp hring.nodup.of_cons).2.2 _ hmem _ mem_cons_self rfl
      obtain ⟨I', A', hnodes'⟩ := I.tickNode A exceeded (t := t) (by rw [hnodes]; simp)
      rw [headD_cons, SchedState.tickLoop, if_neg (by simp), hnext]
      rw [length_cons, Nat.succ_lt_succ_iff] at hturns
      by_cases hex : exceeded t = true
      · rw [if_pos hex, hnodes, erase_append_right _ hl, erase_cons_head] at hnodes'
        exact ih I' A' hnodes' hleft hturns
      · rw [if_neg hex, hnodes, append_cons] at hnodes'
        refine ih I' A' hnodes' (fun u hu => ?_) hturns
        rcases mem_append.mp hu with hu | hu
        · exact hleft u hu
        · cases mem_singleton.mp hu
          exact Bool.eq_false_iff.mpr hex

theorem Inv.length_nodes_lt (I : Inv s) (h : ListHead Q) : (s.nodes h).length < s.turns := by
  obtain ⟨list, P⟩ := I.placed
  rw [P.linked.nodes_eq]
  exact P.linked.length_lt h

/-- After a tick no deadline that is exceeded is left. -/
theorem Inv.nxWaitqTickDeadlines (I : Inv s) (A : Awake s) (exceeded : Tid → Bool) :
    Inv (s.nxWaitqTickDeadlines exceeded) ∧ Awake (s.nxWaitqTickDeadlines exceeded) ∧
      ∀ u, .deadline u ∈ (s.nxWaitqTickDeadlines exceeded).nodes .deadlines → exceeded u = false := by
  obtain ⟨list, P⟩ := I.placed
  have hnext := (P.linked.rings.ring .deadlines).seg.next_eq
  rw [← P.linked.nodes_eq] at hnext
  unfold SchedState.nxWaitqTickDeadlines
  rw [hnext]
  exact I.tickLoop (l := []) exceeded s.turns A rfl (by simp) (I.length_nodes_lt _)

theorem Inv.setPriority (I : Inv s) (hactive : s.active = .priority) (t : Tid) (p : Fin 8) :
    Inv (s.setPriority t p) ∧ SameButFlags s (s.setPriority t p) := by
  obtain ⟨list, P⟩ := I.placed
  have hsame : SameButFlags s s := ⟨fun _ => flagged_refl _, rfl, rfl, rfl, rfl⟩
  unfold SchedState.setPriority
  split
  · exact ⟨I, hsame⟩
  · next p' hp' =>
    split_ifs
    · exact ⟨I, hsame⟩
    · have hsame' : SameButFlags s ((s.unlink (.sched t)).addTail (.prio p) (.sched t)) :=
        ⟨fun _ => flagged_refl _, rfl, rfl, rfl, rfl⟩
      exact ⟨I.flagged hsame' ⟨_, P.relink (h := .prio p') (k := .prio p) hactive
        (P.linked.taskPriority_eq_some hp') hactive⟩, hsame'⟩

/-! ### New tasks -/

/-- The state in which a new task is enqueued. -/
def withTask (s : SchedState Q) : SchedState Q :=
  { s with
    created := s.created + 1
    links := (s.links.init (.sched s.created)).init (.deadline s.created)
    task := Function.update s.task s.created {} }

theorem Linked.withTask (L : Linked s list) : Linked s.withTask list where
  rings := (L.rings.init (fun h => (L.off_of_le le_rfl h).1) (by simp)).init
    (fun h => (L.off_of_le le_rfl h).2) (by simp)
  known hmem := by
    obtain ⟨t, ht, hn⟩ := L.known hmem
    exact ⟨t, Nat.lt_succ_of_lt ht, hn⟩

/-- The new task is on the runqueue, the others are where they were. -/
theorem Placed.spawned (P : Placed s list)
    (L : Linked s' (added list s.active.defaultQueue (.sched s.created)))
    (hcreated : s'.created = s.created + 1) (hactive : s'.active = s.active)
    (hnew : Flagged {} (s'.task s.created))
    (hold : ∀ u < s.created, Flagged (s.task u) (s'.task u)) :
    Placed s' (added list s.active.defaultQueue (.sched s.created)) where
  linked := L
  sched := by
    intro u h hmem
    rw [hactive]
    rcases mem_added.mp hmem with hmem | ⟨hu, rfl⟩
    · obtain ⟨v, hv, heq | heq⟩ := P.linked.known hmem <;> cases heq
      exact (P.sched hmem).congr (hold u hv).samePlace
    · cases hu
      exact (inPlace_defaultQueue s.active (by simp)).congr hnew.samePlace
  listed := by
    intro u hu
    rcases Nat.lt_succ_iff_lt_or_eq.mp (hcreated ▸ hu) with hu | rfl
    · obtain ⟨h, hmem⟩ := P.listed hu
      exact ⟨h, mem_added.mpr (.inl hmem)⟩
    · exact ⟨_, mem_added.mpr (.inr ⟨rfl, rfl⟩)⟩
  deadline := by
    intro u h
    rw [mem_added, P.deadline, hcreated]
    rcases lt_trichotomy u s.created with hu | rfl | hu
    · simp [(hold u hu).samePlace.2.2, hu, Nat.lt_succ_of_lt hu]
    · simp [hnew.samePlace.2.2]
    · simp [not_lt_of_gt hu, Nat.not_lt_of_ge (Nat.succ_le_of_lt hu)]

theorem Inv.schedSpawnKthread (I : Inv s) (A : Awake s) :
    Inv s.schedSpawnKthread ∧ Awake s.schedSpawnKthread := by
  obtain ⟨list, P⟩ := I.placed
  have L := P.linked.withTask
  have hoff : ∀ h, .sched s.created ∉ list h := fun h => (P.linked.off_of_le le_rfl h).1
  obtain ⟨hlinks, F⟩ := enqueue_of_off L hoff s.active
  change Inv (s.withTask.enqueue s.active s.created) ∧ Awake (s.withTask.enqueue s.active s.created)
  set s' := s.withTask.enqueue s.active s.created
  have hcreated : s'.created = s.created + 1 := F.created
  have hcurrent : s'.current = s.current := F.current
  have hnew : Flagged {} (s'.task s.created) := by
    simpa [SchedState.withTask] using F.task s.created
  have hold : ∀ u < s.created, Flagged (s.task u) (s'.task u) := fun u hu => by
    simpa [SchedState.withTask, Function.update_of_ne hu.ne] using F.task u
  have L' : Linked s' (added list s.active.defaultQueue (.sched s.created)) :=
    (L.addTail s.active.defaultQueue hoff ⟨_, Nat.lt_succ_self _, .inl rfl⟩).congr hlinks F.created
  have htasks : ∀ u < s'.created, TaskOk (s'.task u) := fun u hu => by
    rcases Nat.lt_succ_iff_lt_or_eq.mp (hcreated ▸ hu) with hu | rfl
    · exact (I.tasks u hu).flagged (hold u hu)
    · exact TaskOk.flagged ⟨by simp, by simp, by simp, rfl⟩ hnew
  obtain ⟨b, hb⟩ := hold _ I.current
  obtain ⟨b', hb'⟩ := hold idle (Nat.zero_lt_of_lt I.current)
  refine ⟨⟨⟨_, P.spawned L' hcreated F.active hnew hold⟩, htasks, ?_, ?_, ?_,
    F.completed ▸ I.returned⟩, ?_⟩
  · rw [hcurrent, hcreated]
    exact Nat.lt_succ_of_lt I.current
  · rw [hcurrent, hb]
    exact I.running
  · rw [hb']
    exact I.idleFree
  · rw [Awake, hcurrent, hb]
    exact A

/-! ### Runs -/

theorem inv_boot (pol : Policy) :
    Inv (SchedState.boot (Q := Q) pol) ∧ Awake (SchedState.boot (Q := Q) pol) := by
  have L := linked_start (Q := Q) pol
  obtain ⟨hlinks, F⟩ := enqueue_of_off (t := idle) L (by simp) pol
  unfold SchedState.boot
  set s' := (SchedState.start (Q := Q) pol).enqueue pol idle
  have hcreated : s'.created = 1 := F.created
  have hcurrent : s'.current = idle := F.current
  have hidle : Flagged { state := .running } (s'.task idle) := by
    simpa [SchedState.start] using F.task idle
  have L' : Linked s' (added (fun _ => []) pol.defaultQueue (.sched idle)) :=
    (L.addTail pol.defaultQueue (by simp) ⟨idle, Nat.zero_lt_one, .inl rfl⟩).congr hlinks F.created
  obtain ⟨b, hb⟩ := hidle
  refine ⟨⟨⟨_, L', fun {u h} hmem => ?_, fun {u} hu => ?_, fun {u h} => ?_⟩, fun u hu => ?_, ?_, ?_,
    ?_, ?_⟩, ?_⟩
  · obtain ⟨hu, rfl⟩ := (mem_added.mp hmem).resolve_left (by simp)
    cases hu
    rw [F.active, hb]
    exact inPlace_defaultQueue pol (by simp)
  · obtain rfl : u = idle := Nat.lt_one_iff.mp (hcreated ▸ hu)
    exact ⟨_, mem_added.mpr (.inr ⟨rfl, rfl⟩)⟩
  · rw [mem_added, hcreated]
    simp only [not_mem_nil, reduceCtorEq, false_and, or_self, false_iff, not_and, Nat.lt_one_iff]
    rintro - rfl
    simpa [idle] using congrArg (·.waitHasDeadline) hb
  · obtain rfl : u = idle := Nat.lt_one_iff.mp (hcreated ▸ hu)
    rw [hb]
    exact ⟨by simp, by simp, by simp, rfl⟩
  · rw [hcurrent, hcreated]
    exact Nat.zero_lt_one
  · rw [hcurrent, hb]
  · simp [hb]
  · rw [F.completed]
    simp [SchedState.start]
  · rw [Awake, hcurrent, hb]

/-- A wait is not made by `idle`. -/
def NotByIdle (s : SchedState Q) : SchedCall Q → Prop
  | .wait _ _ => s.current ≠ idle
  | _ => True

/-- Every call keeps the invariant, as long as `idle` does not wait. -/
theorem Inv.step (I : Inv s) (A : Awake s) {call : SchedCall Q} (hcall : NotByIdle s call) :
    Inv (s.step call) ∧ Awake (s.step call) := by
  cases call with
  | spawn => exact I.schedSpawnKthread A
  | wait q deadline => exact (I.waitqRegister A hcall q deadline).nxTaskYield
  | wakeOne q => exact I.nxWaitqWakeOne A q
  | wakeAll q =>
    obtain ⟨I', A', -⟩ := Inv.wakeLoop q s.turns I A (I.length_nodes_lt _)
    exact ⟨I', A'⟩
  | tick exceeded =>
    obtain ⟨F, hlinks⟩ := sameButFlags_policyTick s s.active
    obtain ⟨I'', A'', -⟩ := (I.sameLinks F hlinks).nxWaitqTickDeadlines (A.flagged F) exceeded
    exact ⟨I'', A''⟩
  | yield => exact I.nxTaskYield
  | checkResched =>
    obtain ⟨I', hrun⟩ := I.schedCheckResched fun hblocked => absurd hblocked (I.not_blocked A)
    exact I'.finishWait hrun
  | setPriority t p =>
    change Inv (if _ then _ else _) ∧ Awake (if _ then _ else _)
    split_ifs with hactive
    · obtain ⟨I', F⟩ := I.setPriority hactive t p
      exact ⟨I', A.flagged F⟩
    · exact ⟨I, A⟩

/-! ### The lists of a reachable state -/

/-- What the lists of a state and its record of waits should be. -/
structure ListsOk (s : SchedState Q) : Prop where
  ring : ∀ h, s.links.Ring (.head h) (s.nodes h)
  one : ∀ t < s.created, ∃! h, .sched t ∈ s.nodes h
  runqueue : ∀ t < s.created, (s.task t).state ≠ .blocked → s.onQueue s.active t = true
  waitq : ∀ t < s.created, (s.task t).state = .blocked →
    ∃ q, (s.task t).waitQ = some q ∧ .sched t ∈ s.nodes (.waitq q)
  deadline : ∀ t < s.created, .deadline t ∈ s.nodes .deadlines ↔ (s.task t).waitHasDeadline = true
  returned : ∀ e ∈ s.completed, ReturnOk e

theorem Inv.listsOk (I : Inv s) : ListsOk s := by
  obtain ⟨list, P⟩ := I.placed
  have hnodes := P.linked.nodes_eq
  refine ⟨fun h => hnodes h ▸ P.linked.rings.ring h, fun t ht => ?_, fun t ht hstate => ?_,
    fun t ht hstate => ?_, fun t ht => ?_, I.returned⟩
  · simp only [hnodes]
    obtain ⟨h, hmem⟩ := P.listed ht
    exact ⟨h, hmem, fun k hk => P.linked.rings.apart hk hmem⟩
  · exact P.linked.onQueue_iff.mpr (P.exists_queue ht hstate)
  · obtain ⟨h, hmem⟩ := P.listed ht
    have hin := P.sched hmem
    cases h with
    | waitq q => exact ⟨q, hin.2, (hnodes _).symm ▸ hmem⟩
    | rr | prio p => exact absurd hstate hin.2
    | deadlines => exact False.elim hin
  · rw [hnodes, P.deadline]
    simp [ht]

/-- **In every state of a run from boot in which `idle` does not wait, each task is on the list that
its state tells, and each wait that returned was released once, by what its code says.** -/
theorem lists_and_waits_ok (pol : Policy) (calls : List (SchedCall Q))
    (hidle : RunOk step NotByIdle (SchedState.boot pol) calls) :
    ∀ pre, pre <+: calls → ListsOk (runFrom step (SchedState.boot pol) pre) := by
  rintro pre ⟨post, rfl⟩
  obtain ⟨hpre, -⟩ := runOk_append.mp hidle
  exact (RunOk.inv (fun s => Inv s ∧ Awake s) (fun _ _ hcall h => h.1.step h.2 hcall) hpre
    (inv_boot pol)).1.listsOk

/-- A task waits with a deadline, `idle` goes on, and a tick finds the deadline exceeded. -/
def sleeperRun : List (SchedCall (Fin 1)) := [.spawn, .yield, .wait 0 true, .tick fun _ => true, .yield]

theorem lists_and_waits_ok_sleeper :
    let s := runFrom step (SchedState.boot .rr) sleeperRun
    s.completed = [(1, .error .edeadline, [.deadline])] ∧ ListsOk s := by
  have hwaits : (runFrom step (SchedState.boot (Q := Fin 1) .rr) [.spawn, .yield]).current ≠
    idle := by decide +kernel
  refine ⟨by decide +kernel, lists_and_waits_ok .rr sleeperRun ?_ _ (prefix_refl _)⟩
  exact ⟨trivial, trivial, hwaits, trivial, trivial, trivial⟩

/-- The task `idle`, the only one after boot, waits without a deadline. The wait returns as if a
deadline had been exceeded, and the task, which runs, is on the wait queue. -/
theorem idle_wait_returns :
    let s := runFrom step (SchedState.boot .rr) [.wait (0 : Fin 1) false]
    s.completed = [(idle, .error .edeadline, [])] ∧ s.current = idle ∧ (s.task idle).state = .blocked ∧
      s.nodes (.waitq 0) = [.sched idle] ∧ s.nodes .rr = [] := by
  decide +kernel

end SchedState

end Nonux.Core
