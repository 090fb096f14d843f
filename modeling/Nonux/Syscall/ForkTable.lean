import Nonux.Syscall.Provenance

/-!
# The handle table a child starts with

A fork is meant to leave the child with its parent's handles, under the values the parent
knows them by. `sys_fork` copies channels and open files to the same indices, and leaves the
console out: a new process has three console entries from `nx_process_create` already, which
are taken to be the parent's. `fork_inherits_iff` says when that is so. The three low entries
of the parent have to be in use, and the console entries it has have to be three such entries
in the same places (`ConsoleInPlace`); a parent that has closed one of them, or has a console
entry somewhere else, has a child with another table (`fork_reopens_closed_console`).
-/

namespace Nonux.Syscall

open Nonux.Components Nonux.Framework Nonux.Lib

/-- A console entry, which `sys_fork` takes to be installed in the child already. -/
def IsConsole (e : Entry) : Prop :=
  e.type = .resource ∧ (e.target = some .charDeviceSerial ∨ e.object = .id 0)

/-- The same type, rights, object, target and handle value. -/
structure SameHandle (i : EntryIdx) (e e' : Entry) : Prop where
  type : e'.type = e.type
  rights : e'.rights = e.rights
  object : e'.object = e.object
  target : e'.target = e.target
  handle : encodeHandle e'.generation i = encodeHandle e.generation i

theorem SameHandle.refl (i : EntryIdx) (e : Entry) : SameHandle i e e := ⟨rfl, rfl, rfl, rfl, rfl⟩

theorem SameHandle.symm {i : EntryIdx} {e e' : Entry} (h : SameHandle i e e') : SameHandle i e' e :=
  ⟨h.type.symm, h.rights.symm, h.object.symm, h.target.symm, h.handle.symm⟩

/-- What a fork should give the child: the parent's channels, files and console, and nothing
where the parent has nothing. -/
structure InheritsTable (parent child : Table) : Prop where
  shared : ∀ i, Inherited (parent.entries i) ∨ IsConsole (parent.entries i) →
    SameHandle i (parent.entries i) (child.entries i)
  free : ∀ i, ¬ (parent.entries i).Live → ¬ (child.entries i).Live

/-- The table's low entries are in use, and its console entries are those that
`nx_process_create` installs. -/
structure ConsoleInPlace (t : Table) : Prop where
  low : ∀ i : EntryIdx, i < 3 → (t.entries i).Live
  console : ∀ i, IsConsole (t.entries i) → SameHandle i (consoleTable.entries i) (t.entries i)

/-- The console is not copied. -/
theorem IsConsole.not_inherited {e : Entry} (h : IsConsole e) : ¬ Inherited e := by
  rintro (htype | ⟨-, -, htarget, hobject⟩)
  · rw [h.1] at htype
    cases htype
  · exact h.2.elim htarget hobject

theorem consoleTable_live_iff (i : EntryIdx) : (consoleTable.entries i).Live ↔ i < 3 := by
  revert i
  decide

/-- The table of a child, entry by entry. -/
theorem inheritsTable_iff {parent child : Table}
    (hchild : ∀ i, child.entries i = if Inherited (parent.entries i) then parent.entries i
      else consoleTable.entries i) :
    InheritsTable parent child ↔ ConsoleInPlace parent := by
  constructor
  · intro h
    refine ⟨fun i hi => ?_, fun i hi => ?_⟩
    · by_contra hfree
      have hnot : ¬ Inherited (parent.entries i) := fun hinh => hfree hinh.live
      have := h.free i hfree
      rw [hchild, if_neg hnot, consoleTable_live_iff] at this
      exact this hi
    · have := h.shared i (.inr hi)
      rw [hchild, if_neg hi.not_inherited] at this
      exact this.symm
  · intro h
    refine ⟨fun i hi => ?_, fun i hi => ?_⟩
    · rw [hchild]
      by_cases hinh : Inherited (parent.entries i)
      · rw [if_pos hinh]
        exact .refl _ _
      · rw [if_neg hinh]
        exact (h.console i (hi.resolve_left hinh)).symm
    · have hnot : ¬ Inherited (parent.entries i) := fun hinh => hi hinh.live
      rw [hchild, if_neg hnot, consoleTable_live_iff]
      exact fun hlow => hi (h.low i hlow)

/-- **A fork that succeeds gives the child the parent's table exactly when the parent's
console entries are in place**, in every state that the writers of handle tables reach. -/
theorem fork_inherits_iff (files : Fin 32 → Option RamfsFile) (ws : List Writer) (pk ck : ProcKey)
    (p child : Process) (malloc mmu : Bool)
    (hp : (runFrom Writer.apply (bootKernel files) ws).running pk = some p)
    (hck : (nxProcessFork (runFrom Writer.apply (bootKernel files) ws).procs p malloc mmu).2 =
    some ck)
    (hchild : (knext (runFrom Writer.apply (bootKernel files) ws)
      (.fork pk malloc mmu true)).procs.slot ck = some child) :
    InheritsTable p.handles child.handles ↔ ConsoleInPlace p.handles := by
  refine inheritsTable_iff fun i => ?_
  rcases sysFork_cases (running_slot hp) malloc mmu true with ⟨hnone, -⟩ | ⟨j, q, hj, -, hq, hslot, -⟩
  · rw [hck] at hnone
    cases hnone
  · rw [hck, Option.some.injEq] at hj
    subst hj
    simp only [knext, kstep, hp, hslot, Function.update_self, if_true, Option.some.injEq] at hchild
    rw [← hchild, hq, inheritHandles_entries]

/-- The first process forks with its console as it was installed. -/
theorem fork_inherits_console :
    ∃ p child, (knext (bootKernel fun _ => none) (.create [] true true)).running (some 0) = some p ∧
      (runFrom knext (bootKernel fun _ => none)
        [.create [] true true, .fork (some 0) true true true]).procs.slot (some 1) = some child ∧
      InheritsTable p.handles child.handles := by
  obtain ⟨p, child, hp, hck, hchild, hentries⟩ : ∃ p child,
      (runFrom Writer.apply (bootKernel fun _ => none) [.step (.create [] true true)]).running
        (some 0) = some p ∧
      (nxProcessFork (runFrom Writer.apply (bootKernel fun _ => none)
        [.step (.create [] true true)]).procs p true true).2 = some (some 1) ∧
      (knext (runFrom Writer.apply (bootKernel fun _ => none) [.step (.create [] true true)])
        (.fork (some 0) true true true)).procs.slot (some 1) = some child ∧
      p.handles = consoleTable := ⟨_, _, rfl, rfl, rfl, rfl⟩
  refine ⟨p, child, hp, hchild, (fork_inherits_iff _ _ _ _ p child _ _ hp hck hchild).mpr ?_⟩
  rw [hentries]
  exact ⟨fun i hi => (consoleTable_live_iff i).mpr hi, fun i _ => .refl _ _⟩

/-- **A process that has closed its standard output has a child for which it is open**: the
entry 0 is free in the parent, and the console's in the child. -/
theorem fork_reopens_closed_console :
    let k := runFrom knext (bootKernel fun _ => none)
      [.create [] true true, .call (some 0) (.handleClose 1)]
    (k.entry (some 0, 0)).map (·.type) = some .invalid ∧
      (kstep k (.fork (some 0) true true true)).2.rc = 2 ∧
      ((knext k (.fork (some 0) true true true)).entry (some 1, 0)).map (fun e => (e.type, e.target)) =
        some (.resource, some .charDeviceSerial) := by
  decide +kernel

end Nonux.Syscall
