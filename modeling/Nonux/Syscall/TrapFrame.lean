import Mathlib.Tactic
import Nonux.Lib.Loop

/-!
# The trap frame of the current syscall (`nx_syscall_dispatch`, `framework/syscall.c`)

An SVC saves the caller's registers in a trap frame on its kernel stack, and
`nx_syscall_dispatch` puts a pointer to it into the global `g_current_tf` for the two
syscalls that work on the frame: `sys_fork` copies it and `sys_exec` overwrites it. The
pointer is cleared when the dispatcher is left. There is one such global, and tasks take
turns on the one CPU.

## The model

A task is in user mode or inside a syscall, and then it has a list of things left to do
(`Act`): calls into components through `nx_slot_call_blocking` and other waits, at which
it can lose the CPU, and uses of `g_current_tf`. Interrupts are masked inside a syscall,
so that nothing else takes the CPU away there. `Call.acts` lists the acts on each path
through `sys_fork`, `sys_exec` and the other syscalls: `sys_fork` reads the pointer
first, `sys_exec` after it has opened, read and closed the file.

## What is proved

`sys_fork` always sees its caller's own frame (`fork_frame_own`). `sys_exec` may overwrite that
of another task (`exec_overwrites_other_frame`), if one enters or leaves the dispatcher while it is
on its way (`frames_own`).
-/

namespace Nonux.Syscall.TrapFrame

open Nonux.Lib Function List

/-- A trap frame: whose it is, and which of its SVCs saved it. -/
structure Frame where
  task : ℕ
  svc : ℕ
  deriving DecidableEq, Repr

/-- What a syscall does that other tasks can tell, or that can tell other tasks. -/
inductive Act where
  /-- A blocking call into a component, or another wait. -/
  | wait
  /-- `sys_fork` takes `nx_syscall_current_tf()`. -/
  | forkTf
  /-- `sys_exec` takes `nx_syscall_current_tf()`, and overwrites the frame. -/
  | execTf
  /-- `nx_process_exit`: the task does not come back. -/
  | exit
  deriving DecidableEq, Repr

/-- A path through a syscall. -/
inductive Call where
  /-- `sys_fork`, with that many files to retain for the child. -/
  | fork (retains : ℕ)
  /-- `sys_exec` that fails after that many calls into the vfs. -/
  | execFails (calls : ℕ)
  /-- `sys_exec` that opens the file, reads it in that many calls, closes it and succeeds. -/
  | exec (reads : ℕ)
  | exit
  /-- Any other syscall, with that many waits. -/
  | other (waits : ℕ)
  deriving DecidableEq, Repr

/-- What there is to do on the path. -/
def Call.acts : Call → List Act
  | .fork retains => .forkTf :: List.replicate retains .wait
  | .execFails calls => List.replicate calls .wait
  | .exec reads => .wait :: (List.replicate reads .wait ++ [.wait, .execTf])
  | .exit => [.exit]
  | .other waits => List.replicate waits .wait

/-- A use of the frame: by which syscall, which frame was its own, and which it got. -/
structure Use where
  act : Act
  own : Frame
  got : Option Frame
  deriving DecidableEq, Repr

/-- The CPU and its tasks. -/
structure Cpu where
  gCurrentTf : Option Frame := none
  running : ℕ
  /-- How many SVCs each task has made. -/
  svcs : ℕ → ℕ := fun _ => 0
  /-- What is left to do of the syscall a task is in, and `none` in user mode. -/
  left : ℕ → Option (List Act) := fun _ => none
  /-- The uses of `g_current_tf` so far. -/
  uses : List Use := []

/-- The frame of a task's latest SVC. -/
def Cpu.own (s : Cpu) (t : ℕ) : Frame := ⟨t, s.svcs t⟩

/-- What the running task does. -/
inductive Step where
  /-- An SVC, from user mode. -/
  | svc (c : Call)
  /-- The next act of its syscall. If that is a wait, the CPU goes to `next`. -/
  | act (next : ℕ)
  /-- The end of the dispatcher, when nothing is left. -/
  | ret
  /-- A timer interrupt in user mode gives the CPU to `next`. -/
  | preempt (next : ℕ)

/-- The state after the step. A step that the running task cannot take does nothing. -/
def step (s : Cpu) : Step → Cpu
  | .svc c =>
    match s.left s.running with
    | some _ => s
    | none =>
      let svcs := update s.svcs s.running (s.svcs s.running + 1)
      { s with
        gCurrentTf := some ⟨s.running, svcs s.running⟩
        svcs
        left := update s.left s.running (some c.acts) }
  | .act next =>
    match s.left s.running with
    | some (.wait :: rest) => { s with left := update s.left s.running (some rest), running := next }
    | some (.exit :: _) => { s with running := next }
    | some (a :: rest) =>
      { s with
        left := update s.left s.running (some rest)
        uses := { act := a, own := s.own s.running, got := s.gCurrentTf } :: s.uses }
    | _ => s
  | .ret =>
    match s.left s.running with
    | some [] => { s with gCurrentTf := none, left := update s.left s.running none }
    | _ => s
  | .preempt next =>
    match s.left s.running with
    | none => { s with running := next }
    | some _ => s

/-- The machine at boot. -/
def boot : Cpu := { running := 0 }

/-! ### The condition on a step -/

/-- The task is inside `sys_exec`, with the frame still to be overwritten. -/
def InExec (s : Cpu) (t : ℕ) : Prop := ∃ acts, s.left t = some acts ∧ Act.execTf ∈ acts

/-- No other task is inside `sys_exec` when one enters or leaves the dispatcher. -/
def StepOk (s : Cpu) : Step → Prop
  | .svc _ | .ret => ∀ u, u ≠ s.running → ¬ InExec s u
  | .act _ | .preempt _ => True

/-! ### Forks -/

/-- What holds of every run: a task that is still to take the pointer for `sys_fork` is
running, it is what it does next, and the pointer is to its own frame. -/
structure ForkInv (s : Cpu) : Prop where
  next : ∀ t acts, s.left t = some acts → Act.forkTf ∈ acts →
    t = s.running ∧ s.gCurrentTf = some (s.own t) ∧ ∃ rest, acts = .forkTf :: rest ∧ Act.forkTf ∉ rest
  uses : ∀ u ∈ s.uses, u.act = .forkTf → u.got = some u.own

theorem forkTf_mem_acts {c : Call} (h : Act.forkTf ∈ c.acts) :
    ∃ rest, c.acts = .forkTf :: rest ∧ Act.forkTf ∉ rest := by
  cases c with
  | fork retains => exact ⟨_, rfl, by simp [mem_replicate]⟩
  | execFails calls | exec reads => simp [Call.acts, mem_replicate] at h
  | exit => simp [Call.acts] at h
  | other waits => simp [Call.acts, mem_replicate] at h

theorem ForkInv.boot : ForkInv boot :=
  ⟨fun t acts h => by simp [TrapFrame.boot] at h, fun u hu => by simp [TrapFrame.boot] at hu⟩

/-- Whatever the running task goes on to, no other task is about to fork: it would be
running. -/
theorem ForkInv.eq_running {s : Cpu} (h : ForkInv s) {now : Option (List Act)} {t : ℕ} {acts : List Act}
    (hleft : update s.left s.running now t = some acts) (hmem : Act.forkTf ∈ acts) :
    t = s.running ∧ now = some acts := by
  by_cases ht : t = s.running
  · subst ht
    rw [update_self] at hleft
    exact ⟨rfl, hleft⟩
  · rw [update_of_ne ht] at hleft
    exact absurd (h.next t acts hleft hmem).1 ht

/-- After the first thing it does, a task is not about to fork. -/
theorem ForkInv.not_mem_rest {s : Cpu} (h : ForkInv s) {a : Act} {rest : List Act}
    (hleft : s.left s.running = some (a :: rest)) : Act.forkTf ∉ rest := by
  intro hmem
  obtain ⟨-, -, rest', heq, hnot⟩ := h.next _ _ hleft (mem_cons_of_mem _ hmem)
  cases heq
  exact hnot hmem

/-- **Every step keeps it.** -/
theorem ForkInv.step {s : Cpu} (h : ForkInv s) (st : Step) : ForkInv (step s st) := by
  cases st with
  | svc c =>
    rw [TrapFrame.step]
    split
    · exact h
    · next hnone =>
      refine ⟨fun t acts hleft hmem => ?_, h.uses⟩
      obtain ⟨rfl, hnow⟩ := h.eq_running hleft hmem
      obtain rfl := Option.some.inj hnow
      exact ⟨rfl, rfl, forkTf_mem_acts hmem⟩
  | act next =>
    rw [TrapFrame.step]
    split
    · next rest hleft =>
      refine ⟨fun t acts ht hmem => ?_, h.uses⟩
      obtain ⟨rfl, hnow⟩ := h.eq_running ht hmem
      obtain rfl := Option.some.inj hnow
      exact absurd hmem (h.not_mem_rest hleft)
    · next rest hleft =>
      refine ⟨fun t acts ht hmem => ?_, h.uses⟩
      obtain ⟨rfl, -, rest', rfl, -⟩ := h.next t acts ht hmem
      rw [hleft] at ht
      cases ht
    · next a rest hwait hexit hleft =>
      refine ⟨fun t acts ht hmem => ?_, fun u hu hact => ?_⟩
      · obtain ⟨rfl, hnow⟩ := h.eq_running ht hmem
        obtain rfl := Option.some.inj hnow
        exact absurd hmem (h.not_mem_rest hleft)
      · rcases mem_cons.mp hu with rfl | hold
        · dsimp only at hact
          subst hact
          exact (h.next _ _ hleft mem_cons_self).2.1
        · exact h.uses u hold hact
    · exact h
  | ret =>
    rw [TrapFrame.step]
    split
    · next hleft =>
      refine ⟨fun t acts ht hmem => ?_, h.uses⟩
      obtain ⟨-, hnow⟩ := h.eq_running ht hmem
      cases hnow
    · exact h
  | preempt next =>
    rw [TrapFrame.step]
    split
    · next hnone =>
      refine ⟨fun t acts ht hmem => ?_, h.uses⟩
      obtain ⟨rfl, -⟩ := h.next t acts ht hmem
      simp [hnone] at ht
    · exact h

/-- **`sys_fork` always copies its caller's own frame.** -/
theorem fork_frame_own (steps : List Step) (u : Use) (hu : u ∈ (runFrom step boot steps).uses)
    (hact : u.act = .forkTf) : u.got = some u.own :=
  (runFrom_inv ForkInv (fun _ st h => h.step st) ForkInv.boot steps).uses u hu hact

/-! ### Execs -/

/-- What holds as long as no one gets in between: for a task in `sys_exec` the pointer is to
its own frame. -/
structure ExecInv (s : Cpu) : Prop where
  own : ∀ t, InExec s t → s.gCurrentTf = some (s.own t)
  uses : ∀ u ∈ s.uses, u.act = .execTf → u.got = some u.own

theorem ExecInv.boot : ExecInv boot :=
  ⟨fun t ⟨acts, h, _⟩ => by simp [TrapFrame.boot] at h, fun u hu => by simp [TrapFrame.boot] at hu⟩

/-- A task in `sys_exec` after the running task went on with its own was in it before. -/
theorem inExec_of_update {s : Cpu} {t : ℕ} {a : Act} {rest : List Act}
    (hleft : s.left s.running = some (a :: rest)) {acts : List Act}
    (h : update s.left s.running (some rest) t = some acts) (hmem : Act.execTf ∈ acts) :
    InExec s t := by
  by_cases ht : t = s.running
  · subst ht
    simp only [update_self, Option.some.injEq] at h
    subst h
    exact ⟨_, hleft, mem_cons_of_mem _ hmem⟩
  · rw [update_of_ne ht] at h
    exact ⟨acts, h, hmem⟩

/-- **A step that meets the condition keeps it.** -/
theorem ExecInv.step {s : Cpu} (h : ExecInv s) {st : Step} (hok : StepOk s st) :
    ExecInv (step s st) := by
  cases st with
  | svc c =>
    rw [TrapFrame.step]
    split
    · exact h
    · next hnone =>
      refine ⟨fun t ⟨acts, hleft, hmem⟩ => ?_, h.uses⟩
      by_cases ht : t = s.running
      · subst ht; rfl
      · simp only [update_of_ne ht] at hleft
        exact absurd ⟨acts, hleft, hmem⟩ (hok t ht)
  | act next =>
    rw [TrapFrame.step]
    split
    · next rest hleft =>
      exact ⟨fun t ⟨acts, ht, hmem⟩ => h.own t (inExec_of_update hleft ht hmem), h.uses⟩
    · exact ⟨h.own, h.uses⟩
    · next a rest _ _ hleft =>
      refine ⟨fun t ⟨acts, ht, hmem⟩ => h.own t (inExec_of_update hleft ht hmem), fun u hu hact => ?_⟩
      rcases mem_cons.mp hu with rfl | hold
      · dsimp only at hact
        subst hact
        exact h.own _ ⟨_, hleft, mem_cons_self⟩
      · exact h.uses u hold hact
    · exact h
  | ret =>
    rw [TrapFrame.step]
    split
    · next hleft =>
      refine ⟨fun t ⟨acts, ht, hmem⟩ => ?_, h.uses⟩
      by_cases htr : t = s.running
      · subst htr
        simp at ht
      · simp only [update_of_ne htr] at ht
        exact absurd ⟨acts, ht, hmem⟩ (hok t htr)
    · exact h
  | preempt next =>
    rw [TrapFrame.step]
    split
    · exact ⟨h.own, h.uses⟩
    · exact h

/-- Nothing but forks and execs use the frame. -/
theorem use_act (steps : List Step) :
    ∀ u ∈ (runFrom step boot steps).uses, u.act = .forkTf ∨ u.act = .execTf := by
  refine runFrom_inv (fun s : Cpu => ∀ u ∈ s.uses, u.act = .forkTf ∨ u.act = .execTf) (fun s st h => ?_)
    (by simp [boot]) steps
  cases st with
  | act next =>
    rw [step]
    split
    · exact h
    · exact h
    · next a rest hwait hexit hleft =>
      intro u hu
      rcases mem_cons.mp hu with rfl | hold
      · cases a with
        | wait => exact absurd rfl hwait
        | forkTf => exact .inl rfl
        | execTf => exact .inr rfl
        | exit => exact absurd rfl hexit
      · exact h u hold
    · exact h
  | _ =>
    rw [step]
    split <;> exact h

/-- **In every run in which no task enters or leaves the dispatcher while another is on its
way through `sys_exec`, the frame that `sys_fork` copies and the one that `sys_exec`
overwrites is the caller's own.** -/
theorem frames_own (steps pre : List Step) (hok : RunOk step StepOk boot steps)
    (hpre : pre <+: steps) (u : Use) (hu : u ∈ (runFrom step boot pre).uses) :
    u.got = some u.own := by
  obtain ⟨post, rfl⟩ := hpre
  have hexec := (runOk_append.mp hok).1.inv ExecInv (fun s st hst h => h.step hst) ExecInv.boot
  rcases use_act pre u hu with hfork | hex
  · exact fork_frame_own pre u hu hfork
  · exact hexec.uses u hu hex

/-- A task execs a file that it reads in one call, while another one sleeps in a syscall
that it had entered before. -/
def execBesideSleeper : List Step :=
  [.preempt 1, .svc (.other 1), .act 0, .svc (.exec 1), .act 0, .act 0, .act 0, .act 0]

/-- The condition keeps no task out of `sys_exec`, and none asleep out of a syscall. -/
theorem frames_own_beside_sleeper :
    RunOk step StepOk boot execBesideSleeper ∧
      ∃ u ∈ (runFrom step boot execBesideSleeper).uses, u.act = .execTf ∧ u.got = some u.own := by
  have hok : RunOk step StepOk boot execBesideSleeper := by
    simp [execBesideSleeper, RunOk, StepOk, step, boot, InExec, update_apply, Call.acts]
  have huse : (⟨.execTf, ⟨0, 1⟩, some ⟨0, 1⟩⟩ : Use) ∈
      (runFrom step boot execBesideSleeper).uses := by decide
  exact ⟨hok, _, huse, rfl, frames_own _ _ hok (prefix_refl _) _ huse⟩

/-- While task 0 waits for the vfs to open the file it is to execute, task 1 enters a
syscall and waits in it. Task 0 then opens, reads and closes the file, and overwrites the
frame of task 1. -/
theorem exec_overwrites_other_frame :
    (runFrom step boot [.svc (.exec 1), .act 1, .svc (.other 1), .act 0, .act 0, .act 0, .act 0]).uses =
      [⟨.execTf, ⟨0, 1⟩, some ⟨1, 1⟩⟩] := by
  decide

end Nonux.Syscall.TrapFrame
