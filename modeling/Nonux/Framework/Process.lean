import Nonux.Framework.Channel
import Nonux.Framework.Handle
import Nonux.Syscall.Path

/-!
# Processes (`framework/process.c`)

The kernel process and the fixed table of user processes, each with a handle table of its own. This
module has what makes and finds a process; `nx_process_exit`, which also closes channels, is with
the syscalls.

A process is created with three handles to the console at the head of its table (`preinstall_eq`),
and forked with a parent's name, pid and working directory. Address spaces are left out, but for the
fact that making one can fail.

* `ctrl_c_posts_iff`: which processes the console's Ctrl-C reaches. It goes through the pids below
  256, and pids are not used again.
-/

namespace Nonux.Framework

open Nonux.Lib Nonux.Syscall Function

/-! ### The kernel's handle tables -/

/-- What a handle's object pointer can point to. -/
inductive KObj where
  /-- A channel endpoint. -/
  | endpoint (r : EndpointRef)
  /-- A directory cursor, by its identity on the heap. -/
  | cursor (d : ℕ)
  /-- The object of a configuration handle. -/
  | configSentinel
  deriving DecidableEq, Repr

/-- The component slots that handle code compares targets with, and any other. -/
inductive KSlot where
  | charDeviceSerial
  | vfs
  | other (n : ℕ)
  deriving DecidableEq, Repr

/-- An entry of a process's table. -/
abbrev Entry := HandleEntry KObj KSlot

/-- A process's table. -/
abbrev Table := HandleTable KObj KSlot

/-! ### The process table -/

/-- `NX_PROCESS_STATE_*`. -/
inductive ProcessState where
  | active
  | exited
  deriving DecidableEq, Repr

/-- `struct nx_process`, but for its address space, its task and its wait queue. -/
structure Process where
  pid : UInt32
  name : Path
  state : ProcessState := .active
  exitCode : ℤ := 0
  parentPid : UInt32 := 0
  cwd : Path := [slash]
  handles : Table := {}

/-- Where a process is: `none` is `g_kernel_process`, and `some i` is a place in
`g_process_table` (`NX_PROCESS_TABLE_CAPACITY` is 128). -/
abbrev ProcKey := Option (Fin 128)

/-- For places written as numerals. -/
instance instNeZeroPlaces : NeZero 128 := ⟨by decide⟩

/-- The processes that exist, and `g_pid_next`. -/
structure Procs where
  slot : ProcKey → Option Process
  pidNext : UInt32 := 1

/-- The kernel process at boot. Its name is `kernel`. -/
def kernelProcess : Process := { pid := 0, name := [107, 101, 114, 110, 101, 108] }

/-- The processes at boot. -/
def bootProcs : Procs := { slot := update (fun _ => none) none (some kernelProcess) }

/-- Store a process. -/
def Procs.set (ps : Procs) (k : ProcKey) (p : Option Process) : Procs :=
  { ps with slot := update ps.slot k p }

/-- The place `process_table_add` takes. -/
def Procs.firstFree (ps : Procs) : Option (Fin 128) :=
  (List.finRange 128).find? fun i => (ps.slot (some i)).isNone

/-- `nx_process_lookup_by_pid`. -/
def nxProcessLookupByPid (ps : Procs) (pid : UInt32) : Option ProcKey :=
  if pid = 0 then some none
  else
    ((List.finRange 128).find? fun i =>
      match ps.slot (some i) with
      | some p => decide (p.pid = pid)
      | none => false).map some

/-- The processes in the order of `nx_process_for_each`. -/
def nxProcessForEach (ps : Procs) : List Process :=
  (ps.slot none).toList ++ (List.finRange 128).filterMap fun i => ps.slot (some i)

/-! ### Making and removing processes -/

/-- The three console handles `nx_process_create` installs, with its check that they
came out as 1, 2 and 3. -/
def preinstall (t : Table) : Option Table :=
  match nxHandleAllocResource t nxRightWrite 0 (some .charDeviceSerial) with
  | .error _ => none
  | .ok (t, h0) =>
    match nxHandleAllocResource t nxRightWrite 0 (some .charDeviceSerial) with
    | .error _ => none
    | .ok (t, h1) =>
      match nxHandleAllocResource t nxRightRead 0 (some .charDeviceSerial) with
      | .error _ => none
      | .ok (t, h2) => if h0 = 1 ∧ h1 = 2 ∧ h2 = 3 then some t else none

/-- `nx_process_create`. `malloc` and `mmu` say whether the process structure and its
address space can be allocated. The pid is used up even if the address space fails. -/
def nxProcessCreate (ps : Procs) (name : Path) (malloc mmu : Bool) : Procs × Option ProcKey :=
  if malloc = false then (ps, none)
  else
    match ps.firstFree with
    | none => (ps, none)
    | some i =>
      let pid := ps.pidNext
      let ps := { ps with pidNext := pid + 1 }
      match preinstall (nxHandleTableInit {}) with
      | none => (ps, none)
      | some handles =>
        if mmu = false then (ps, none)
        else (ps.set (some i) (some { pid, name := name.take 15, handles }), some (some i))

/-- `nx_process_fork`: a new process with its parent's name, pid and working directory. -/
def nxProcessFork (ps : Procs) (parent : Process) (malloc mmu : Bool) : Procs × Option ProcKey :=
  match nxProcessCreate ps parent.name malloc mmu with
  | (ps, none) => (ps, none)
  | (ps, some k) =>
    match ps.slot k with
    | none => (ps, none)
    | some child => (ps.set k (some { child with parentPid := parent.pid, cwd := parent.cwd }), some k)

/-- `nx_process_destroy`. The kernel process only has its table cleared. Of another
process every live handle is closed with `nx_handle_close`, which drops no reference to
the object behind it, and then the table goes with the process. -/
def nxProcessDestroy (ps : Procs) (k : ProcKey) : Procs :=
  match k with
  | none =>
    match ps.slot none with
    | none => ps
    | some p => ps.set none
        (some { p with handles := nxHandleTableInit p.handles, state := .active, exitCode := 0 })
  | some i => ps.set (some i) none

/-! ### What a new process has -/

/-- A new process's handle table. -/
def consoleTable : Table :=
  let console (rights : UInt32) : Entry :=
    { type := .resource, rights, object := .id 0, target := some .charDeviceSerial }
  (((({} : Table).occupy 0 (console nxRightWrite)).occupy 1 (console nxRightWrite)).occupy 2
    (console nxRightRead))

/-- The check on the three handles never fails. -/
theorem preinstall_eq : preinstall (nxHandleTableInit {}) = some consoleTable := rfl

/-- The console's id is 0, which no handle can be made for. -/
theorem duplicate_console_fails :
    nxHandleLookup consoleTable 3 = .ok (.resource, nxRightRead, .id 0) ∧
      nxHandleDuplicate consoleTable 3 nxRightRead = .error .einval := ⟨rfl, rfl⟩

/-- The console is all a new process has. -/
theorem consoleTable_entries (i : EntryIdx) :
    ¬ (consoleTable.entries i).Live ∨
      (consoleTable.entries i).type = .resource ∧
      (consoleTable.entries i).target = some .charDeviceSerial := by
  simp only [consoleTable, HandleTable.occupy]
  by_cases h2 : i = 2
  · subst h2; simp
  by_cases h1 : i = 1
  · subst h1; simp
  by_cases h0 : i = 0
  · subst h0; simp
  · left
    simp [update_of_ne, h0, h1, h2, HandleEntry.Live]

/-- `nx_process_create` makes a process in a free place, with the console and nothing else, or it
makes none and may use up a pid. -/
theorem nxProcessCreate_eq (ps : Procs) (name : Path) (malloc mmu : Bool) :
    (∃ n, (n = ps.pidNext ∨ n = ps.pidNext + 1) ∧
      nxProcessCreate ps name malloc mmu = ({ ps with pidNext := n }, none)) ∨
      ∃ i, ps.slot (some i) = none ∧ (malloc = true ∧ mmu = true ∧ ps.firstFree ≠ none) ∧
        nxProcessCreate ps name malloc mmu = (({ ps with pidNext := ps.pidNext + 1 } : Procs).set
          (some i) (some { pid := ps.pidNext, name := name.take 15, handles := consoleTable }),
          some (some i)) := by
  unfold nxProcessCreate
  cases malloc with
  | false => exact .inl ⟨_, .inl rfl, rfl⟩
  | true =>
    cases hfree : ps.firstFree with
    | none => exact .inl ⟨_, .inl rfl, rfl⟩
    | some i =>
      have hi : ps.slot (some i) = none := by simpa using List.find?_some hfree
      cases mmu with
      | false => exact .inl ⟨_, .inr rfl, rfl⟩
      | true => exact .inr ⟨i, hi, ⟨rfl, rfl, Option.some_ne_none i⟩, rfl⟩

/-- `nx_process_fork` makes the same process, as a child of the caller. -/
theorem nxProcessFork_eq (ps : Procs) (parent : Process) (malloc mmu : Bool) :
    (∃ n, (n = ps.pidNext ∨ n = ps.pidNext + 1) ∧
      nxProcessFork ps parent malloc mmu = ({ ps with pidNext := n }, none)) ∨
      ∃ i, ps.slot (some i) = none ∧ (malloc = true ∧ mmu = true ∧ ps.firstFree ≠ none) ∧
        nxProcessFork ps parent malloc mmu =
          (({ ps with pidNext := ps.pidNext + 1 } : Procs).set (some i)
            (some { pid := ps.pidNext, name := parent.name.take 15, handles := consoleTable,
                    parentPid := parent.pid, cwd := parent.cwd }), some (some i)) := by
  unfold nxProcessFork
  rcases nxProcessCreate_eq ps parent.name malloc mmu with ⟨n, hn, heq⟩ | ⟨i, hi, hfound, heq⟩
  · exact .inl ⟨n, hn, by rw [heq]⟩
  · exact .inr ⟨i, hi, hfound, by simp [heq, Procs.set]⟩

/-- A fork that succeeds found memory and a free place. -/
theorem nxProcessFork_some (ps : Procs) (parent : Process) (malloc mmu : Bool)
    (h : (nxProcessFork ps parent malloc mmu).2 ≠ none) :
    malloc = true ∧ mmu = true ∧ ps.firstFree ≠ none := by
  rcases nxProcessFork_eq ps parent malloc mmu with ⟨n, -, heq⟩ | ⟨i, -, hfound, -⟩
  · simp [heq] at h
  · exact hfound

theorem lookup_some {ps : Procs} {pid : UInt32} {i : Fin 128}
    (h : nxProcessLookupByPid ps pid = some (some i)) :
    ∃ p, ps.slot (some i) = some p ∧ p.pid = pid := by
  unfold nxProcessLookupByPid at h
  by_cases hpid : pid = 0
  · simp [hpid] at h
  rw [if_neg hpid, Option.map_eq_some_iff] at h
  obtain ⟨j, hfind, hj⟩ := h
  obtain rfl := Option.some_inj.mp hj
  have hfound := List.find?_some hfind
  cases hslot : ps.slot (some j) with
  | none => simp [hslot] at hfound
  | some p => exact ⟨p, rfl, by simpa [hslot] using hfound⟩

/-! ### Ctrl-C (`framework/console.c`) -/

/-- `1u << NX_SIGTERM`. -/
def sigterm : UInt32 := 0x8000

/-- The process is `ACTIVE`, and not the kernel's. -/
def Procs.activeUser (ps : Procs) : ProcKey → Bool
  | none => false
  | some i => (ps.slot (some i)).any (·.state = .active)

/-- A turn of the loop of `nx_console_drain_intr`, on the `pending_signals` of all processes. -/
def drainPid (ps : Procs) (signals : ProcKey → UInt32) (pid : ℕ) : ProcKey → UInt32 :=
  match nxProcessLookupByPid ps (.ofNat pid) with
  | none => signals
  | some k =>
    if some k = nxProcessLookupByPid ps 0 then signals
    else if (ps.slot k).all (·.state ≠ .active) then signals
    else update signals k (signals k ||| sigterm)

/-- `nx_console_drain_intr`: what it returns, `g_intr_pending` and the signals. -/
def nxConsoleDrainIntr (ps : Procs) (intrPending : Bool) (signals : ProcKey → UInt32) :
    ℤ × Bool × (ProcKey → UInt32) :=
  if intrPending then (1, false, (List.range' 1 255).foldl (drainPid ps) signals)
    else (0, false, signals)

theorem drainPid_apply (ps : Procs) (signals : ProcKey → UInt32) (pid : ℕ) (k : ProcKey) :
    drainPid ps signals pid k =
    if nxProcessLookupByPid ps (.ofNat pid) = some k ∧ ps.activeUser k then signals k ||| sigterm
      else signals k := by
  unfold drainPid
  cases nxProcessLookupByPid ps (.ofNat pid) with
  | none => simp
  | some k' =>
    rw [show nxProcessLookupByPid ps 0 = some none from rfl]
    cases k' with
    | none => cases k <;> simp [Procs.activeUser]
    | some j =>
      dsimp only
      rw [if_neg (by simp)]
      by_cases hk : k = some j
      · subst hk
        cases hj : ps.slot (some j) with
        | none => simp [Procs.activeUser, hj]
        | some p => by_cases hp : p.state = .active <;> simp [Procs.activeUser, hj, hp]
      · have hne : some (some j) ≠ some k := fun h => hk (Option.some.inj h).symm
        split_ifs <;> simp_all

theorem drain_apply (ps : Procs) (pids : List ℕ) (signals : ProcKey → UInt32) (k : ProcKey) :
    pids.foldl (drainPid ps) signals k =
      if (∃ pid ∈ pids, nxProcessLookupByPid ps (.ofNat pid) = some k) ∧
      ps.activeUser k then signals k ||| sigterm else signals k := by
  induction pids generalizing signals with
  | nil => simp
  | cons pid pids ih =>
    rw [List.foldl_cons, ih, drainPid_apply]
    by_cases hactive : ps.activeUser k = true
    · by_cases hpid : nxProcessLookupByPid ps (.ofNat pid) = some k <;>
        simp [hactive, hpid, UInt32.or_assoc]
    · simp [hactive]

/-- The loop reaches a process by its pid. -/
theorem reached_iff {ps : Procs} {i : Fin 128} {p : Process} (hp : ps.slot (some i) = some p) :
    (∃ pid ∈ List.range' 1 255, nxProcessLookupByPid ps (.ofNat pid) = some (some i)) ↔
      p.pid < 256 ∧ nxProcessLookupByPid ps p.pid = some (some i) := by
  rw [UInt32.lt_iff_toNat_lt]
  constructor
  · rintro ⟨pid, hpid, hl⟩
    obtain ⟨q, hq, hqpid⟩ := lookup_some hl
    cases hq.symm.trans hp
    rw [hqpid, UInt32.toNat_ofNat]
    exact ⟨(Nat.mod_le _ _).trans_lt (List.mem_range'_1.mp hpid).2, hl⟩
  · rintro ⟨hlt, hl⟩
    have hpos : p.pid.toNat ≠ 0 := fun h0 => by
      rw [UInt32.toNat_inj.mp (h0.trans UInt32.toNat_zero.symm)] at hl
      cases hl
    refine ⟨p.pid.toNat, List.mem_range'_1.mpr ⟨Nat.pos_of_ne_zero hpos, hlt⟩, ?_⟩
    rwa [UInt32.ofNat_toNat]

/-- **Ctrl-C posts `SIGTERM` to just the processes that are `ACTIVE`, but for the kernel's, if and
only if each of them has a pid below 256 by which it is found.** -/
theorem ctrl_c_posts_iff (ps : Procs) :
    (∀ signals k, (nxConsoleDrainIntr ps true signals).2.2 k =
        if ps.activeUser k then signals k ||| sigterm else signals k) ↔
      ∀ i p, ps.slot (some i) = some p → p.state = .active →
        p.pid < 256 ∧ nxProcessLookupByPid ps p.pid = some (some i) := by
  simp only [nxConsoleDrainIntr, if_true, drain_apply]
  constructor
  · intro h i p hp hstate
    have hactive : ps.activeUser (some i) = true := by simp [Procs.activeUser, hp, hstate]
    have hposted := h (fun _ => 0) (some i)
    rw [if_pos hactive] at hposted
    split_ifs at hposted with hfound
    · exact (reached_iff hp).mp hfound.1
    · cases hposted
  · intro h signals k
    refine if_congr (and_iff_right_of_imp fun hactive => ?_) rfl rfl
    cases k with
    | none => cases hactive
    | some i =>
      obtain ⟨p, hp, hstate⟩ := (Option.any_eq_true _ _).mp hactive
      exact (reached_iff hp).mpr (h i p hp (by simpa using hstate))

/-- After 255 processes have come and gone, the next one is not reached. -/
theorem ctrl_c_misses_pid_256 :
    let ps := (List.range 255).foldl
      (fun ps _ => nxProcessDestroy (nxProcessCreate ps [] true true).1 (some 0)) bootProcs
    let ps := (nxProcessCreate ps [] true true).1
    ps.activeUser (some 0) = true ∧ (nxConsoleDrainIntr ps true fun _ => 0).2.2 (some 0) = 0 := by
  intro ps ps'
  have hpid : (ps'.slot (some 0)).map (·.pid) = some 256 := by decide +kernel
  obtain ⟨p, hp, hpid⟩ := Option.map_eq_some_iff.mp hpid
  refine ⟨by decide +kernel, ?_⟩
  have hnot : ¬ p.pid < 256 := by rw [hpid]; decide
  simp only [nxConsoleDrainIntr, if_true, drain_apply]
  exact if_neg fun h => hnot ((reached_iff hp).mp h.1).1

end Nonux.Framework
