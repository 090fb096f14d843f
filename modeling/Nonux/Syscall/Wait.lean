import Nonux.Syscall.Handles

/-!
# Waiting for a process (`framework/syscall.c`, `framework/process.c`)

`sys_wait` sleeps on its caller's `exit_waitq` until the process it waits for has exited, and then
frees it. While it sleeps for a process by pid it holds a pointer to it. An exit wakes the
`exit_waitq` of the parent alone. A wait for any child looks at the caller's children only; a wait
for a pid takes any process, and then its pointer may outlive the process, and its sleep the exit.

A `WaitState` is the kernel with what the task of each process is doing. A pointer says which of the
processes made in a place of the table it points to, so that one to a freed process is told from one
to its successor. `wait_reaps_children` says that all is well in any run in which a wait for a pid
is for a child of the caller, until the pids run out.
-/

namespace Nonux.Syscall.Wait

open Nonux.Framework Nonux.Lib Function List

/-! ### The model -/

/-- A `struct nx_process *` to a user process: its place in the table, and how many processes had
been made there. -/
structure ProcPtr where
  place : Fin 128
  born : ℕ
  deriving DecidableEq, Repr

/-- What a `sys_wait` that sleeps waits for. -/
inductive WaitFor where
  | any
  | target (t : ProcPtr)
  deriving DecidableEq, Repr

/-- What the task of a process is doing. -/
inductive Thread where
  /-- There is none, or it has left the runqueue for good. -/
  | ended
  | running
  /-- In `nx_waitq_wait_unless` on its own process's `exit_waitq`. -/
  | asleep (w : WaitFor)
  /-- Taken off that queue, and not back in the loop of `sys_wait` yet. -/
  | woken (w : WaitFor)
  deriving DecidableEq, Repr

/-- A process that `sys_wait` has freed: the pid of the caller, and the parent pid of the
process. -/
structure Reap where
  caller : UInt32
  target : ProcPtr
  parentPid : UInt32
  deriving DecidableEq, Repr

/-- The kernel, and what its processes' tasks are doing. -/
structure WaitState where
  kernel : Kernel := {}
  /-- How many processes have been made in a place. -/
  born : Fin 128 → ℕ := fun _ => 0
  thread : Fin 128 → Thread := fun _ => .ended
  /-- What has been reaped. -/
  reaps : List Reap := []
  /-- The pointers that were followed after the process was freed. -/
  stale : List ProcPtr := []

/-- `nx_process_find_exited_child`: an exited child, or else an active one. -/
def nxProcessFindExitedChild (ps : Procs) (parent : Process) : Option (Fin 128) × Option (Fin 128) :=
  let child (state : ProcessState) (i : Fin 128) : Bool :=
    match ps.slot (some i) with
    | none => false
    | some p => decide (p.parentPid = parent.pid) && decide (p.state = state)
  match (List.finRange 128).find? (child .exited) with
  | some i => (some i, none)
  | none => (none, (List.finRange 128).find? (child .active))

namespace WaitState

/-- The process in a place of the table. -/
def proc (s : WaitState) (i : Fin 128) : Option Process := s.kernel.procs.slot (some i)

/-- A pointer to the process in a place. -/
def ptr (s : WaitState) (i : Fin 128) : ProcPtr := ⟨i, s.born i⟩

/-- The process that a pointer points to. There is none once it is freed. -/
def deref (s : WaitState) (t : ProcPtr) : Option Process :=
  if t.born = s.born t.place then s.proc t.place else none

def setThread (s : WaitState) (c : Fin 128) (t : Thread) : WaitState :=
  { s with thread := update s.thread c t }

/-- `nx_waitq_wake_all` on a process's `exit_waitq`, where nobody sleeps but its own task. -/
def wake (s : WaitState) (c : Fin 128) : WaitState :=
  match s.thread c with
  | .asleep w => s.setThread c (.woken w)
  | _ => s

/-- The end of `sys_wait`: the process is freed, and its pid returned. -/
def reap (s : WaitState) (c : Fin 128) (caller : Process) (t : ProcPtr) (target : Process) :
    WaitState × Option ℤ :=
  ({ s.setThread c .running with
      kernel := { s.kernel with procs := nxProcessDestroy s.kernel.procs (some t.place) }
      reaps := s.reaps ++ [⟨caller.pid, t, target.parentPid⟩] },
    some target.pid.toNat)

/-- One turn of the loop of `sys_wait` for any child. The predicate that `nx_waitq_wait_unless`
checks before it sleeps is the same scan. No value is returned when the caller sleeps. -/
def waitAny (s : WaitState) (c : Fin 128) (caller : Process) : WaitState × Option ℤ :=
  match nxProcessFindExitedChild s.kernel.procs caller with
  | (some i, _) =>
    match s.proc i with
    | none => (s, none)
    | some target => s.reap c caller (s.ptr i) target
  | (none, none) => (s.setThread c .running, some (-10))
  | (none, some _) => (s.setThread c (.asleep .any), none)

/-- One turn of the loop of `sys_wait` for a process. -/
def waitTarget (s : WaitState) (c : Fin 128) (caller : Process) (t : ProcPtr) : WaitState × Option ℤ :=
  match s.deref t with
  | none => ({ s with stale := s.stale ++ [t] }, none)
  | some target =>
    if target.state = .exited then s.reap c caller t target
    else (s.setThread c (.asleep (.target t)), none)

/-- `sys_wait`, up to where it sleeps or returns. The copy of the exit code to the caller is left
out: a failure of it is ignored. -/
def sysWait (s : WaitState) (c : Fin 128) (caller : Process) (pid : UInt32) : WaitState × Option ℤ :=
  if pid = 0xFFFFFFFF then s.waitAny c caller
  else
    match nxProcessLookupByPid s.kernel.procs pid with
    | none | some none => (s, some Err.enoent.code)
    | some (some i) => if i = c then (s, some Err.einval.code) else s.waitTarget c caller (s.ptr i)

/-- A `sys_wait` that was woken goes on. -/
def resume (s : WaitState) (c : Fin 128) (caller : Process) : WaitFor → WaitState × Option ℤ
  | .any => s.waitAny c caller
  | .target t => s.waitTarget c caller t

/-- The kernel has made a process, if there is one where there was none. It has a task. -/
def adopt (s : WaitState) (k : Kernel) : WaitState :=
  let new (i : Fin 128) : Bool := (s.proc i).isNone && (k.procs.slot (some i)).isSome
  { s with
    kernel := k
    born := fun i => if new i then s.born i + 1 else s.born i
    thread := fun i => if new i then .running else s.thread i }

/-- `nx_process_exit`. Only the parent is woken. -/
def exit (s : WaitState) (c : Fin 128) (p : Process) (code : ℤ) : WaitState :=
  let s := { s.setThread c .ended with kernel := nxProcessExit s.kernel (some c) code }
  if p.parentPid = 0 then s
  else
    match nxProcessLookupByPid s.kernel.procs p.parentPid with
    | some (some q) => s.wake q
    | _ => s

end WaitState

/-- What can happen between two points at which a task blocks. -/
inductive WaitStep where
  /-- The kernel makes a process that has no parent. -/
  | create (name : Path) (malloc mmu : Bool)
  | fork (c : Fin 128) (malloc mmu task : Bool)
  | exit (c : Fin 128) (code : ℤ)
  | wait (c : Fin 128) (pid : UInt32)
  /-- A task that was woken runs. -/
  | resume (c : Fin 128)

namespace WaitState

/-- Take a step. One by a task that cannot take it does nothing. -/
def step (s : WaitState) : WaitStep → WaitState
  | .create name malloc mmu => s.adopt (knext s.kernel (.create name malloc mmu))
  | .fork c malloc mmu task =>
    match s.proc c, s.thread c with
    | some _, .running => s.adopt (sysFork s.kernel (some c) malloc mmu task).1
    | _, _ => s
  | .exit c code =>
    match s.proc c, s.thread c with
    | some p, .running => s.exit c p code
    | _, _ => s
  | .wait c pid =>
    match s.proc c, s.thread c with
    | some p, .running => (s.sysWait c p pid).1
    | _, _ => s
  | .resume c =>
    match s.proc c, s.thread c with
    | some p, .woken w => (s.resume c p w).1
    | _, _ => s

/-- A wait for a pid is for a child of the caller, and there are pids left for a new process. -/
def Permitted (s : WaitState) : WaitStep → Prop
  | .create .. | .fork .. => s.kernel.procs.pidNext ≠ 0xFFFFFFFF
  | .wait c pid =>
    pid ≠ 0xFFFFFFFF → ∀ i, nxProcessLookupByPid s.kernel.procs pid = some (some i) → i ≠ c →
      (s.proc i).map Process.parentPid = (s.proc c).map Process.pid
  | .exit .. | .resume _ => True

instance (s : WaitState) : DecidablePred s.Permitted
  | .create .. | .fork .. => inferInstanceAs (Decidable (s.kernel.procs.pidNext ≠ 0xFFFFFFFF))
  | .wait .. => inferInstanceAs (Decidable (_ → _))
  | .exit .. | .resume _ => inferInstanceAs (Decidable True)

/-- What a task waits for is over: a child of its process has exited, or the process it waits for
has, and may be gone. -/
def Over (s : WaitState) (c : Fin 128) : WaitFor → Prop
  | .any => ∃ p i q, s.proc c = some p ∧ s.proc i = some q ∧ q.parentPid = p.pid ∧ q.state = .exited
  | .target t => ∀ q, s.deref t = some q → q.state = .exited

end WaitState

/-! ### What the table's functions do -/

/-- A process with this parent is made in a free place and gets the next pid, or none is and a pid
may be used up. -/
inductive Spawns (ps : Procs) (parent : UInt32) (ps' : Procs) : Prop where
  | failed (hslot : ps'.slot = ps.slot) (hnext : ps'.pidNext = ps.pidNext ∨ ps'.pidNext = ps.pidNext + 1)
  | made (i : Fin 128) (p : Process) (hfree : ps.slot (some i) = none)
      (hslot : ps'.slot = update ps.slot (some i) (some p)) (hpid : p.pid = ps.pidNext)
      (hparent : p.parentPid = parent) (hstate : p.state = .active)
        (hnext : ps'.pidNext = ps.pidNext + 1)

theorem nxProcessCreate_spawns (ps : Procs) (name : Path) (malloc mmu : Bool) :
    Spawns ps 0 (nxProcessCreate ps name malloc mmu).1 := by
  rcases nxProcessCreate_eq ps name malloc mmu with ⟨n, hn, heq⟩ | ⟨i, hi, -, heq⟩ <;> rw [heq]
  · exact .failed rfl hn
  · exact .made i _ hi rfl rfl rfl rfl rfl

theorem sysFork_spawns {k : Kernel} {pk : ProcKey} {p : Process} (hp : k.procs.slot pk = some p)
    (malloc mmu task : Bool) : Spawns k.procs p.pid (sysFork k pk malloc mmu task).1.procs := by
  unfold sysFork
  rcases nxProcessFork_eq k.procs p malloc mmu with ⟨n, hn, heq⟩ | ⟨i, hi, -, heq⟩ <;>
    simp only [hp, heq]
  · exact .failed rfl hn
  · simp only [Procs.set, update_self, update_idem]
    cases task with
    | true => exact .made i _ hi rfl rfl rfl rfl rfl
    | false => exact .failed (by simp [nxProcessDestroy, Procs.set, ← hi]) (.inr rfl)

/-- A pid that one process has finds this process. -/
theorem lookup_eq {ps : Procs} {i : Fin 128} {p : Process} (hslot : ps.slot (some i) = some p)
    (hpid : p.pid ≠ 0) (hunique : ∀ j q, ps.slot (some j) = some q → q.pid = p.pid → j = i) :
    nxProcessLookupByPid ps p.pid = some (some i) := by
  cases hl : nxProcessLookupByPid ps p.pid with
  | none =>
    rw [nxProcessLookupByPid, if_neg hpid, Option.map_eq_none_iff, find?_eq_none] at hl
    exact absurd (by simp [hslot]) (hl i (mem_finRange i))
  | some k =>
    cases k with
    | none => simp [nxProcessLookupByPid, hpid] at hl
    | some j =>
      obtain ⟨q, hq, hqpid⟩ := lookup_some hl
      rw [hunique j q hq hqpid]

/-- What the scan for a child finds. -/
inductive ChildScan (ps : Procs) (parent : Process) : Option (Fin 128) × Option (Fin 128) → Prop where
  | exited (i : Fin 128) (q : Process) (hslot : ps.slot (some i) = some q)
      (hparent : q.parentPid = parent.pid)
      (hstate : q.state = .exited) : ChildScan ps parent (some i, none)
  | none (active : Option (Fin 128))
      (h : ∀ i q, ps.slot (some i) = some q → q.parentPid = parent.pid → q.state ≠ .exited) :
      ChildScan ps parent (none, active)

theorem nxProcessFindExitedChild_scan (ps : Procs) (parent : Process) :
    ChildScan ps parent (nxProcessFindExitedChild ps parent) := by
  unfold nxProcessFindExitedChild
  dsimp only
  split
  · rename_i i hfind
    have hfound := find?_some hfind
    cases hslot : ps.slot (some i) with
    | none => simp [hslot] at hfound
    | some q =>
      simp only [hslot, Bool.and_eq_true, decide_eq_true_eq] at hfound
      exact .exited i q hslot hfound.1 hfound.2
  · rename_i hfind
    refine .none _ fun i q hslot hparent hstate => ?_
    have := find?_eq_none.mp hfind i (mem_finRange i)
    simp [hslot, hparent, hstate] at this

/-! ### The invariant -/

namespace WaitState

variable {s : WaitState} {c : Fin 128}

@[simp] theorem deref_ptr (s : WaitState) (i : Fin 128) : s.deref (s.ptr i) = s.proc i := if_pos rfl

variable {t : ProcPtr}

theorem deref_some {q : Process} (h : s.deref t = some q) :
    t.born = s.born t.place ∧ s.proc t.place = some q := by
  unfold deref at h
  split at h
  · exact ⟨‹_›, h⟩
  · cases h

/-- A pointer that a task holds is to a child of its process. -/
def Holds (s : WaitState) (c : Fin 128) : WaitFor → Prop
  | .any => True
  | .target t => ∃ p q, s.proc c = some p ∧ s.deref t = some q ∧ q.parentPid = p.pid

/-- What every permitted step keeps. -/
structure Good (s : WaitState) : Prop where
  live : ∀ c, s.thread c ≠ .ended → ∃ p, s.proc c = some p ∧ p.state = .active
  pids : ∀ c p, s.proc c = some p → p.pid.toNat ≠ 0 ∧ p.pid.toNat < s.kernel.procs.pidNext.toNat ∧
    p.parentPid.toNat < s.kernel.procs.pidNext.toNat
  next : 0 < s.kernel.procs.pidNext.toNat
  unique : ∀ c d p q, s.proc c = some p → s.proc d = some q → p.pid = q.pid → c = d
  held : ∀ c w, s.thread c = .asleep w ∨ s.thread c = .woken w → s.Holds c w
  asleep : ∀ c w, s.thread c = .asleep w → ¬ s.Over c w
  reaped : ∀ r ∈ s.reaps, r.parentPid = r.caller ∧ r.target.born ≤ s.born r.target.place ∧
    s.deref r.target = none
  once : (s.reaps.map Reap.target).Nodup
  fresh : s.stale = []

theorem good_boot (files : Fin 32 → Option Components.RamfsFile) :
    Good { kernel := bootKernel files } where
  live c h := absurd rfl h
  pids c p h := nomatch h
  next := by show 0 < (1 : UInt32).toNat; decide
  unique c d p q h := nomatch h
  held c w h := by rcases h with h | h <;> nomatch h
  asleep c w h := nomatch h
  reaped r h := nomatch h
  once := nodup_nil
  fresh := rfl

/-- **A step that makes no process.** Those that are left keep their pids and their parents, and one
whose task is not at its end stays as it was. What the tasks wait for, and what has been reaped, is
left to show. -/
theorem Good.of_kept (h : Good s) {s' : WaitState}
    (hproc : ∀ d q', s'.proc d = some q' → ∃ q, s.proc d = some q ∧ q'.pid = q.pid ∧
      q'.parentPid = q.parentPid)
    (hlive : ∀ d, s'.thread d ≠ .ended → s.thread d ≠ .ended ∧ s'.proc d = s.proc d)
    (hnext : s.kernel.procs.pidNext.toNat ≤ s'.kernel.procs.pidNext.toNat) (hborn : s'.born = s.born)
    (hheld : ∀ d w, s'.thread d = .asleep w ∨ s'.thread d = .woken w → s'.Holds d w)
    (hasleep : ∀ d w, s'.thread d = .asleep w → ¬ s'.Over d w)
    (hreaps : ∀ r ∈ s'.reaps, r ∈ s.reaps ∨
      r.parentPid = r.caller ∧ r.target.born ≤ s.born r.target.place ∧ s'.proc r.target.place = none)
    (honce : (s'.reaps.map Reap.target).Nodup) (hstale : s'.stale = s.stale) : Good s' where
  live d hd := by
    obtain ⟨hbefore, hsame⟩ := hlive d hd
    rw [hsame]
    exact h.live d hbefore
  pids d q' hq' := by
    obtain ⟨q, hq, hpid, hparent⟩ := hproc d q' hq'
    obtain ⟨hzero, hlt, hpar⟩ := h.pids d q hq
    rw [hpid, hparent]
    exact ⟨hzero, hlt.trans_le hnext, hpar.trans_le hnext⟩
  next := h.next.trans_le hnext
  unique d e q' r' hq' hr' heq := by
    obtain ⟨q, hq, hqpid, -⟩ := hproc d q' hq'
    obtain ⟨r, hr, hrpid, -⟩ := hproc e r' hr'
    exact h.unique d e q r hq hr (by rw [← hqpid, ← hrpid, heq])
  held := hheld
  asleep := hasleep
  reaped r hr := by
    rw [hborn]
    rcases hreaps r hr with hr | ⟨hchild, hle, hnone⟩
    · obtain ⟨hchild, hle, hgone⟩ := h.reaped r hr
      refine ⟨hchild, hle, Option.eq_none_iff_forall_ne_some.mpr fun q' hq' => ?_⟩
      obtain ⟨hb, hq'⟩ := deref_some hq'
      obtain ⟨q, hq, -⟩ := hproc _ q' hq'
      rw [deref, if_pos (hborn ▸ hb), hq] at hgone
      cases hgone
    · exact ⟨hchild, hle, by rw [deref, hnone, ite_self]⟩
  once := honce
  fresh := hstale.trans h.fresh

/-- A task that is not at its end goes on to something that the invariant permits. -/
theorem Good.setThread (h : Good s) (hc : s.thread c ≠ .ended) {t : Thread}
    (hheld : ∀ w, t = .asleep w ∨ t = .woken w → s.Holds c w)
    (hover : ∀ w, t = .asleep w → ¬ s.Over c w) : Good (s.setThread c t) := by
  refine h.of_kept (fun d q hq => ⟨q, hq, rfl, rfl⟩) (fun d hd => ⟨?_, rfl⟩) le_rfl rfl
    (fun d w hd => ?_) (fun d w hd => ?_) (fun r hr => .inl hr) h.once rfl
  all_goals by_cases hdc : d = c
  · exact hdc ▸ hc
  · simpa [WaitState.setThread, update_of_ne hdc] using hd
  · subst hdc
    exact hheld w (by simpa [WaitState.setThread] using hd)
  · exact h.held d w (by simpa [WaitState.setThread, update_of_ne hdc] using hd)
  · subst hdc
    exact hover w (by simpa [WaitState.setThread] using hd)
  · exact h.asleep d w (by simpa [WaitState.setThread, update_of_ne hdc] using hd)

/-! ### Making a process -/

variable {k : Kernel}

/-- With no process made, nothing changes here. -/
theorem adopt_failed (hslot : k.procs.slot = s.kernel.procs.slot) :
    s.adopt k = { s with kernel := k } := by
  have hnew : ∀ i, ((s.proc i).isNone && (k.procs.slot (some i)).isSome) = false := by
    intro i
    rw [hslot]
    change ((s.proc i).isNone && (s.proc i).isSome) = false
    cases s.proc i <;> rfl
  simp only [adopt, hnew, Bool.false_eq_true, ↓reduceIte]

variable {p : Process}

theorem ite_decide_eq_update {α : Type} (f g : Fin 128 → α) (i : Fin 128) :
    (fun j => if decide (j = i) = true then g j else f j) = update f i (g i) := by
  funext j
  by_cases hj : j = i
  · subst hj; simp
  · simp [hj]

/-- A new process is the next of its place, and has a task. -/
theorem adopt_made {i : Fin 128} (hfree : s.proc i = none)
    (hslot : k.procs.slot = update s.kernel.procs.slot (some i) (some p)) :
    s.adopt k =
      { s with
        kernel := k
        born := update s.born i (s.born i + 1)
        thread := update s.thread i .running } := by
  have hnew : ∀ j, ((s.proc j).isNone && (k.procs.slot (some j)).isSome) = decide (j = i) := by
    intro j
    rw [hslot]
    by_cases hj : j = i
    · subst hj
      simp [hfree]
    · rw [update_of_ne (by simpa using hj)]
      change ((s.proc j).isNone && (s.proc j).isSome) = _
      cases s.proc j <;> simp [hj]
  simp only [adopt, hnew, ite_decide_eq_update s.born fun j => s.born j + 1,
    ite_decide_eq_update s.thread fun _ => .running]

/-- Only the table and `g_pid_next` matter of the kernel. -/
theorem Good.withKernel (h : Good s) (hslot : k.procs.slot = s.kernel.procs.slot)
    (hnext : s.kernel.procs.pidNext.toNat ≤ k.procs.pidNext.toNat) : Good { s with kernel := k } := by
  have hproc : WaitState.proc { s with kernel := k } = s.proc := funext fun i => congrFun hslot _
  have hderef : WaitState.deref { s with kernel := k } = s.deref := by
    funext t
    unfold deref
    rw [hproc]
  refine h.of_kept (fun d q hq => ⟨q, hproc ▸ hq, rfl, rfl⟩) (fun d hd => ⟨hd, by rw [hproc]⟩) hnext
    rfl (fun d w hd => ?_) (fun d w hd => ?_) (fun r hr => .inl hr) h.once rfl
  · have := h.held d w hd
    cases w with
    | any => trivial
    | target t => simpa only [Holds, hproc, hderef] using this
  · have := h.asleep d w hd
    cases w <;> simpa only [Over, hproc, hderef] using this

/-- A new process has a pid of its own and has not exited. No pointer is to it yet. -/
theorem Good.made (h : Good s) {i : Fin 128} (hfree : s.proc i = none)
    (hslot : k.procs.slot = update s.kernel.procs.slot (some i) (some p))
    (hpid : p.pid = s.kernel.procs.pidNext) (hparent : p.parentPid.toNat < s.kernel.procs.pidNext.toNat)
    (hstate : p.state = .active) (hnext : k.procs.pidNext.toNat = s.kernel.procs.pidNext.toNat + 1) :
    Good (s.adopt k) := by
  rw [adopt_made hfree hslot]
  generalize hs' : WaitState.mk k _ _ _ _ = s'
  have hself : s'.proc i = some p := by simp [← hs', proc, hslot]
  have hother : ∀ j, j ≠ i → s'.proc j = s.proc j := by
    intro j hj
    simp [← hs', proc, hslot, hj]
  have hthread : ∀ j, j ≠ i → s'.thread j = s.thread j := by
    intro j hj
    simp [← hs', hj]
  have hrun : s'.thread i = .running := by simp [← hs']
  have hborn : ∀ j, s'.born j = if j = i then s.born i + 1 else s.born j := by
    intro j
    simp [← hs', update_apply]
  have hold : ∀ j q, s.proc j = some q → j ≠ i := by
    rintro j q hq rfl
    rw [hfree] at hq
    cases hq
  have hderef : ∀ t, t.born ≤ s.born t.place → s'.deref t = s.deref t := by
    intro t ht
    unfold deref
    rw [hborn]
    by_cases hti : t.place = i
    · rw [if_pos hti, if_neg (by rw [hti] at ht; omega), hti, hfree, ite_self]
    · rw [if_neg hti, hother _ hti]
  have hkept : ∀ t q, s.deref t = some q → s'.deref t = some q := by
    intro t q hq
    rw [hderef t (deref_some hq).1.le, hq]
  constructor
  · intro d hd
    by_cases hdi : d = i
    · exact ⟨p, hdi ▸ hself, hstate⟩
    · rw [hother d hdi]
      exact h.live d (hthread d hdi ▸ hd)
  · intro d q hq
    rw [← hs', hnext]
    by_cases hdi : d = i
    · obtain rfl : p = q := by rw [hdi, hself] at hq; exact Option.some_inj.mp hq
      rw [hpid]
      exact ⟨h.next.ne', by omega, by omega⟩
    · obtain ⟨hzero, hlt, hpar⟩ := h.pids d q (hother d hdi ▸ hq)
      exact ⟨hzero, by omega, by omega⟩
  · rw [← hs', hnext]
    exact Nat.succ_pos _
  · have hnew : ∀ d q, d ≠ i → s'.proc d = some q → q.pid ≠ p.pid := by
      intro d q hdi hq heq
      have hlt := (h.pids d q (hother d hdi ▸ hq)).2.1
      rw [heq, hpid] at hlt
      exact hlt.false
    intro d e q r hq hr heq
    by_cases hdi : d = i <;> by_cases hei : e = i
    · rw [hdi, hei]
    · rw [hdi, hself] at hq
      exact absurd (Option.some_inj.mp hq ▸ heq.symm) (hnew e r hei hr)
    · rw [hei, hself] at hr
      exact absurd (Option.some_inj.mp hr ▸ heq) (hnew d q hdi hq)
    · exact h.unique d e q r (hother d hdi ▸ hq) (hother e hei ▸ hr) heq
  · intro d w hd
    have hdi : d ≠ i := by rintro rfl; rw [hrun] at hd; rcases hd with hd | hd <;> cases hd
    have := h.held d w (hthread d hdi ▸ hd)
    cases w with
    | any => trivial
    | target t =>
      obtain ⟨q, r, hq, hr, hpar⟩ := this
      exact ⟨q, r, (hother d hdi).trans hq, hkept t r hr, hpar⟩
  · intro d w hd hover
    have hdi : d ≠ i := by rintro rfl; rw [hrun] at hd; cases hd
    refine h.asleep d w (hthread d hdi ▸ hd) ?_
    cases w with
    | any =>
      obtain ⟨q, j, r, hq, hr, hpar, hexited⟩ := hover
      have hji : j ≠ i := by
        rintro rfl
        rw [hself] at hr
        obtain rfl := Option.some_inj.mp hr
        rw [hstate] at hexited
        cases hexited
      exact ⟨q, j, r, hother d hdi ▸ hq, hother j hji ▸ hr, hpar, hexited⟩
    | target t => exact fun q hq => hover q (hkept t q hq)
  · intro r hr
    obtain ⟨hchild, hle, hgone⟩ := h.reaped r (by simpa [← hs'] using hr)
    refine ⟨hchild, ?_, by rw [hderef _ hle, hgone]⟩
    rw [hborn]
    split
    · rename_i hri
      rw [hri] at hle
      omega
    · exact hle
  · rw [← hs']
    exact h.once
  · rw [← hs']
    exact h.fresh

theorem Good.adopt (h : Good s) {parent : UInt32} (hspawns : Spawns s.kernel.procs parent k.procs)
    (hparent : parent.toNat < s.kernel.procs.pidNext.toNat)
    (hnext : s.kernel.procs.pidNext ≠ 0xFFFFFFFF) : Good (s.adopt k) := by
  have hsucc : (s.kernel.procs.pidNext + 1).toNat = s.kernel.procs.pidNext.toNat + 1 := by
    have hne : s.kernel.procs.pidNext.toNat ≠ 0xFFFFFFFF := fun h => hnext (UInt32.toNat_inj.mp h)
    have hlt := s.kernel.procs.pidNext.toNat_lt
    rw [UInt32.toNat_add]
    simp only [UInt32.toNat_one]
    omega
  cases hspawns with
  | failed hslot hpid =>
    rw [adopt_failed hslot]
    refine h.withKernel hslot ?_
    rcases hpid with hpid | hpid <;> rw [hpid]
    omega
  | made i p hfree hslot hpid hpar hstate hnext' =>
    exact h.made hfree hslot hpid (hpar ▸ hparent) hstate (by rw [hnext', hsucc])

/-! ### Exits -/

theorem Good.wake (h : Good s) (c : Fin 128) : Good (s.wake c) := by
  unfold WaitState.wake
  cases hc : s.thread c with
  | asleep w =>
    refine h.setThread (by rw [hc]; exact Thread.noConfusion) (fun w' hw' => ?_)
      (fun w' hw' => by cases hw')
    obtain rfl : w = w' := by rcases hw' with hw' | hw' <;> cases hw'; rfl
    exact h.held c w (.inl hc)
  | ended | running | woken => exact h

theorem wake_self (w : WaitFor) : (s.wake c).thread c ≠ .asleep w := by
  unfold wake
  cases hc : s.thread c with
  | asleep w => simp [setThread]
  | ended | running | woken => simp [hc]

theorem wake_proc (d : Fin 128) : (s.wake c).proc d = s.proc d := by
  unfold wake
  cases s.thread c <;> rfl

/-- A process that has exited, and its task at its end. -/
def leave (s : WaitState) (c : Fin 128) (code : ℤ) : WaitState :=
  { s.setThread c .ended with kernel := nxProcessExit s.kernel (some c) code }

/-- The parent may as well be woken first. -/
theorem wake_leave (hrun : s.thread c = .running) (e : Fin 128) (code : ℤ) :
    (s.leave c code).wake e = (s.wake e).leave c code := by
  unfold wake leave
  by_cases hec : e = c
  · subst hec
    simp [setThread, hrun]
  · have hthread : ∀ t, update s.thread c t e = s.thread e := fun t => update_of_ne hec _ _
    simp only [setThread, hthread]
    cases s.thread e <;> simp only [update_comm hec]

/-- The end of a process whose parent does not sleep. -/
theorem Good.leave (h : Good s) (hp : s.proc c = some p) (code : ℤ)
    (hawake : ∀ d q w, s.proc d = some q → q.pid = p.parentPid → s.thread d ≠ .asleep w) :
    Good (s.leave c code) := by
  generalize hs' : s.leave c code = s'
  unfold WaitState.leave at hs'
  obtain ⟨p', hslot, hpid, hparent, hnext⟩ : ∃ p' : Process,
      s'.kernel.procs.slot = update s.kernel.procs.slot (some c) (some p') ∧ p'.pid = p.pid ∧
        p'.parentPid = p.parentPid ∧ s'.kernel.procs.pidNext = s.kernel.procs.pidNext := by
    change s.kernel.procs.slot (some c) = some p at hp
    simp only [← hs', nxProcessExit, hp]
    exact ⟨_, rfl, rfl, rfl, rfl⟩
  have hself : s'.proc c = some p' := by simp [proc, hslot]
  have hother : ∀ d, d ≠ c → s'.proc d = s.proc d := by
    intro d hd
    simp [proc, hslot, hd]
  have hthread : ∀ d, s'.thread d ≠ .ended → d ≠ c ∧ s'.thread d = s.thread d := by
    intro d hd
    have hdc : d ≠ c := by
      rintro rfl
      simp [← hs', WaitState.setThread] at hd
    exact ⟨hdc, by simp [← hs', WaitState.setThread, hdc]⟩
  have hborn : s'.born = s.born := by simp [← hs', WaitState.setThread]
  have hreaps : s'.reaps = s.reaps := by simp [← hs', WaitState.setThread]
  -- Pointers are to what they were, and the one to the process that exits is still to it.
  have hderef : ∀ t q, s.deref t = some q → ∃ q', s'.deref t = some q' ∧ q'.parentPid = q.parentPid ∧
      (t.place ≠ c → q' = q) := by
    intro t q hq
    obtain ⟨hb, hq⟩ := deref_some hq
    by_cases htc : t.place = c
    · rw [htc, hp] at hq
      obtain rfl := Option.some_inj.mp hq
      exact ⟨p', by rw [deref, hborn, if_pos hb, htc, hself], hparent, fun hne => absurd htc hne⟩
    · exact ⟨q, by rw [deref, hborn, if_pos hb, hother _ htc, hq], rfl, fun _ => rfl⟩
  refine h.of_kept (fun d q' hq' => ?_) (fun d hd => ?_) (by rw [hnext]) hborn (fun d w hd => ?_)
    (fun d w hd hover => ?_)
    (fun r hr => .inl (hreaps ▸ hr)) (hreaps ▸ h.once) (by simp [← hs', WaitState.setThread])
  · by_cases hdc : d = c
    · subst hdc
      obtain rfl : p' = q' := Option.some_inj.mp (hself.symm.trans hq')
      exact ⟨p, hp, hpid, hparent⟩
    · exact ⟨q', hother d hdc ▸ hq', rfl, rfl⟩
  · obtain ⟨hdc, hsame⟩ := hthread d hd
    exact ⟨hsame ▸ hd, hother d hdc⟩
  · obtain ⟨hdc, hsame⟩ := hthread d (by rcases hd with hd | hd <;> rw [hd] <;> exact Thread.noConfusion)
    have := h.held d w (hsame ▸ hd)
    cases w with
    | any => trivial
    | target t =>
      obtain ⟨q, r, hq, hr, hpar⟩ := this
      obtain ⟨r', hr', hrpar, -⟩ := hderef t r hr
      exact ⟨q, r', (hother d hdc).trans hq, hr', hrpar.trans hpar⟩
  · obtain ⟨hdc, hsame⟩ := hthread d (by rw [hd]; exact Thread.noConfusion)
    rw [hsame] at hd
    refine h.asleep d w hd ?_
    cases w with
    | any =>
      obtain ⟨q, i, r', hq, hr', hpar, hexited⟩ := hover
      rw [hother d hdc] at hq
      by_cases hic : i = c
      · subst hic
        obtain rfl : p' = r' := Option.some_inj.mp (hself.symm.trans hr')
        exact absurd hd (hawake d q .any hq (by rw [← hpar, hparent]))
      · exact ⟨q, i, r', hq, hother i hic ▸ hr', hpar, hexited⟩
    | target t =>
      obtain ⟨q, r, hq, hr, hpar⟩ := h.held d _ (.inl hd)
      by_cases htc : t.place = c
      · have hrp := (deref_some hr).2
        rw [htc, hp] at hrp
        obtain rfl := Option.some_inj.mp hrp
        exact absurd hd (hawake d q _ hq hpar.symm)
      · intro q₁ hq₁
        obtain ⟨q', hq', -, hsame⟩ := hderef t q₁ hq₁
        exact hsame htc ▸ hover q' hq'

theorem Good.exit (h : Good s) (hp : s.proc c = some p) (hrun : s.thread c = .running) (code : ℤ) :
    Good (s.exit c p code) := by
  -- The lookup after the exit finds the parent: the pids are those from before.
  have hlookup : nxProcessLookupByPid (s.leave c code).kernel.procs p.parentPid =
      nxProcessLookupByPid s.kernel.procs p.parentPid := by
    change s.kernel.procs.slot (some c) = some p at hp
    unfold nxProcessLookupByPid
    congr 3
    funext i
    by_cases hic : i = c <;> simp [WaitState.leave, nxProcessExit, hp, Procs.set, hic]
  have hparent : ∀ d q, s.proc d = some q → q.pid = p.parentPid →
      nxProcessLookupByPid s.kernel.procs p.parentPid = some (some d) := by
    intro d q hq hqpid
    rw [← hqpid]
    exact lookup_eq hq (fun hzero => (h.pids d q hq).1 (by rw [hzero]; rfl))
      fun e r hr hrpid => h.unique e d r q hr hq hrpid
  change Good (if p.parentPid = 0 then s.leave c code else
    match nxProcessLookupByPid (s.leave c code).kernel.procs p.parentPid with
    | some (some q) => (s.leave c code).wake q
    | _ => s.leave c code)
  rw [hlookup]
  by_cases hzero : p.parentPid = 0
  · rw [if_pos hzero]
    refine h.leave hp code fun d q w hq hqpid => absurd ?_ (h.pids d q hq).1
    rw [hqpid, hzero]
    rfl
  rw [if_neg hzero]
  split
  · rename_i e he
    rw [wake_leave hrun]
    refine (h.wake e).leave ((wake_proc c).trans hp) code fun d q w hq hqpid => ?_
    obtain rfl : e = d := by simpa using he.symm.trans (hparent d q ((wake_proc d).symm.trans hq) hqpid)
    exact wake_self w
  · rename_i hnot
    exact h.leave hp code fun d q w hq hqpid => absurd (hparent d q hq hqpid) (hnot d)

/-! ### Waits -/

/-- A parent frees a child that has exited. No task holds a pointer to it but the parent's own,
which it is done with. -/
theorem Good.reap (h : Good s) {q : Process} (hp : s.proc c = some p) (hc : s.thread c ≠ .ended)
    (hq : s.deref t = some q) (hexited : q.state = .exited) (hparent : q.parentPid = p.pid) :
    Good (s.reap c p t q).1 := by
  obtain ⟨hborn, hplace⟩ := deref_some hq
  unfold WaitState.reap
  generalize hs' : Prod.fst (WaitState.mk _ _ _ _ _, _) = s'
  have hself : s'.proc t.place = none := by simp [← hs', proc, nxProcessDestroy, Procs.set]
  have hother : ∀ d, d ≠ t.place → s'.proc d = s.proc d := by
    intro d hd
    simp [← hs', proc, nxProcessDestroy, Procs.set, hd]
  have hsub : ∀ d r, s'.proc d = some r → s.proc d = some r := by
    intro d r hr
    by_cases hd : d = t.place
    · rw [hd, hself] at hr
      cases hr
    · exact hother d hd ▸ hr
  have hthread : ∀ d, d ≠ c → s'.thread d = s.thread d := by
    intro d hd
    simp [← hs', WaitState.setThread, hd]
  have hrun : s'.thread c = .running := by simp [← hs', WaitState.setThread]
  have hborns : s'.born = s.born := by simp [← hs', WaitState.setThread]
  have hderef : ∀ u, u.place ≠ t.place → s'.deref u = s.deref u := by
    intro u hu
    rw [deref, deref, hborns, hother _ hu]
  have hactive : ∀ d, s.thread d ≠ .ended → d ≠ t.place := by
    rintro d hd rfl
    obtain ⟨r, hr, hstate⟩ := h.live _ hd
    obtain rfl := Option.some_inj.mp (hr.symm.trans hplace)
    rw [hstate] at hexited
    cases hexited
  have hreaps : s'.reaps = s.reaps ++ [⟨p.pid, t, q.parentPid⟩] := by rw [← hs']
  have hnew : ∀ d w, s'.thread d = .asleep w ∨ s'.thread d = .woken w → d ≠ c := by
    rintro d w hd rfl
    rw [hrun] at hd
    rcases hd with hd | hd <;> cases hd
  refine h.of_kept (fun d r hr => ⟨r, hsub d r hr, rfl, rfl⟩) (fun d hd => ?_) (by rw [← hs']; rfl)
    hborns (fun d w hd => ?_) (fun d w hd hover => ?_) (fun r hr => ?_) ?_ (by rw [← hs']; rfl)
  · have hbefore : s.thread d ≠ .ended := by
      by_cases hdc : d = c
      · exact hdc ▸ hc
      · exact hthread d hdc ▸ hd
    exact ⟨hbefore, hother d (hactive d hbefore)⟩
  · have hdc := hnew d w hd
    rw [hthread d hdc] at hd
    have hheld := h.held d w hd
    cases w with
    | any => trivial
    | target u =>
      obtain ⟨r, r', hr, hr', hpar⟩ := hheld
      have hut : u.place ≠ t.place := by
        intro heq
        have hr'' := (deref_some hr').2
        rw [heq, hplace] at hr''
        obtain rfl := Option.some_inj.mp hr''
        exact hdc (h.unique d c r p hr hp (by rw [← hpar, hparent]))
      have hdt : d ≠ t.place :=
        hactive d (by rcases hd with hd | hd <;> rw [hd] <;> exact Thread.noConfusion)
      exact ⟨r, r', (hother d hdt).trans hr, (hderef u hut).trans hr', hpar⟩
  · rw [hthread d (hnew d w (.inl hd))] at hd
    refine h.asleep d w hd ?_
    cases w with
    | any =>
      obtain ⟨r, i, r', hr, hr', hpar, hover⟩ := hover
      exact ⟨r, i, r', hsub d r hr, hsub i r' hr', hpar, hover⟩
    | target u =>
      intro r hr
      by_cases hut : u.place = t.place
      · have hr' := (deref_some hr).2
        rw [hut, hplace] at hr'
        exact Option.some_inj.mp hr' ▸ hexited
      · exact hover r ((hderef u hut).trans hr)
  · rw [hreaps, mem_append, mem_singleton] at hr
    exact hr.imp_right (by rintro rfl; exact ⟨hparent, hborn.le, hself⟩)
  · rw [hreaps, map_append, nodup_append]
    refine ⟨h.once, nodup_singleton _, ?_⟩
    rintro u hu u' hu' rfl
    obtain ⟨r, hr, rfl⟩ := mem_map.mp hu
    obtain rfl : r.target = t := by simpa using hu'
    rw [(h.reaped r hr).2.2] at hq
    cases hq

theorem Good.waitAny (h : Good s) (hp : s.proc c = some p) (hc : s.thread c ≠ .ended) :
    Good (s.waitAny c p).1 := by
  have hscan := nxProcessFindExitedChild_scan s.kernel.procs p
  unfold WaitState.waitAny
  generalize nxProcessFindExitedChild s.kernel.procs p = scan at hscan
  cases hscan with
  | exited i q hslot hparent hstate =>
    have hq : s.proc i = some q := hslot
    simp only [hq]
    exact h.reap hp hc (by rw [deref_ptr, hq]) hstate hparent
  | none active hnone =>
    cases active with
    | none => exact h.setThread hc (by rintro w (hw | hw) <;> cases hw) (by rintro w hw; cases hw)
    | some i =>
      refine h.setThread hc ?_ ?_
      · rintro w (hw | hw) <;> cases hw
        trivial
      · intro w hw
        cases hw
        rintro ⟨r, j, q, hr, hq, hpar, hexited⟩
        obtain rfl := Option.some_inj.mp (hp.symm.trans hr)
        exact hnone j q hq hpar hexited

theorem Good.waitTarget (h : Good s) {q : Process} (hp : s.proc c = some p) (hc : s.thread c ≠ .ended)
    (hq : s.deref t = some q) (hparent : q.parentPid = p.pid) : Good (s.waitTarget c p t).1 := by
  unfold WaitState.waitTarget
  simp only [hq]
  by_cases hexited : q.state = .exited
  · rw [if_pos hexited]
    exact h.reap hp hc hq hexited hparent
  rw [if_neg hexited]
  refine h.setThread hc ?_ ?_
  · rintro w (hw | hw) <;> cases hw
    exact ⟨p, q, hp, hq, hparent⟩
  · intro w hw hover
    cases hw
    exact hexited (hover q hq)

theorem Good.sysWait (h : Good s) (hp : s.proc c = some p) (hc : s.thread c ≠ .ended) {pid : UInt32}
    (hok : s.Permitted (.wait c pid)) : Good (s.sysWait c p pid).1 := by
  unfold WaitState.sysWait
  by_cases hany : pid = 0xFFFFFFFF
  · rw [if_pos hany]
    exact h.waitAny hp hc
  rw [if_neg hany]
  split
  · exact h
  · exact h
  · rename_i i hlookup
    by_cases hic : i = c
    · rw [if_pos hic]
      exact h
    rw [if_neg hic]
    obtain ⟨q, hq, -⟩ := lookup_some hlookup
    have hparent := hok hany i hlookup hic
    change s.proc i = some q at hq
    rw [hq, hp, Option.map_some, Option.map_some] at hparent
    exact h.waitTarget hp hc (by rw [deref_ptr, hq]) (Option.some_inj.mp hparent)

theorem Good.resume (h : Good s) (hp : s.proc c = some p) {w : WaitFor} (hc : s.thread c = .woken w) :
    Good (s.resume c p w).1 := by
  have hrun : s.thread c ≠ .ended := by
    rw [hc]
    exact Thread.noConfusion
  have hheld := h.held c w (.inr hc)
  cases w with
  | any => exact h.waitAny hp hrun
  | target t =>
    obtain ⟨p', q, hp', hq, hparent⟩ := hheld
    obtain rfl := Option.some_inj.mp (hp.symm.trans hp')
    exact h.waitTarget hp hrun hq hparent

/-! ### Runs -/

theorem Good.step (h : Good s) {a : WaitStep} (hok : s.Permitted a) : Good (s.step a) := by
  cases a with
  | create name malloc mmu =>
    exact h.adopt (nxProcessCreate_spawns s.kernel.procs name malloc mmu) h.next hok
  | fork c malloc mmu task =>
    simp only [WaitState.step]
    split
    · rename_i p hp hrun
      exact h.adopt (sysFork_spawns hp malloc mmu task) (h.pids c p hp).2.1 hok
    · exact h
  | exit c code =>
    simp only [WaitState.step]
    split
    · rename_i p hp hrun
      exact h.exit hp hrun code
    · exact h
  | wait c pid =>
    simp only [WaitState.step]
    split
    · rename_i p hp hrun
      exact h.sysWait hp (by rw [hrun]; exact Thread.noConfusion) hok
    · exact h
  | resume c =>
    simp only [WaitState.step]
    split
    · rename_i p w hp hwoken
      exact h.resume hp hwoken
    · exact h

/-- A process, its child and its grandchild, with pids 1, 2 and 3. -/
def threeGenerations : List WaitStep :=
  [.create [] true true, .fork 0 true true true, .fork 1 true true true]

end WaitState

end Nonux.Syscall.Wait
