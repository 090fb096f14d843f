import Nonux.Framework.ChangeLog
import Nonux.Framework.GraphPointers

/-!
# The slot of a task (`core/sched/task.c`)

Every task has a slot of its own in the component graph, from which its calls go out. The slot is a
part of the task's structure, and so is its name. `nx_task_create` registers it, binds it to what
the slot `posix_shim` is bound to, and gives it a copy of every connection that goes out of
`posix_shim`; `nx_task_destroy` takes all that back and frees the structure. Every one of these
changes of the graph leaves an event in the change log, with pointers to the names.

## The model

A `TaskGraph` has the registry, and which slots are parts of the structures of tasks: allocations
are numbered, since the memory of a task may be given to a later one. `names` has, for the event of
each generation, the pointers that are in it (`NamePtr`); `RegCall.event_names` says that they point
to the strings that the registry's own events show. The outcomes of the allocations are arguments.

## What is proved

* `unwireCallerSlot_unregisters`: the slot is out of the registry before it is freed.
* `log_names_live_iff`: when all names that can be read from the change log are in memory that is
  not freed, in any run of creations and destructions of tasks.
-/

namespace Nonux.Framework

open Nonux.Lib Function List

/-! ### The events of `nx_change_log_to_json` -/

/-- The events that `nx_change_log_to_json` prints, from the oldest one on. -/
def ChangeLog.nxChangeLogToJson (l : ChangeLog) : List LogEntry :=
  let held := l.nxChangeLogSize
  (List.range' (l.total - held) held).map fun i => l.ring (i % nxChangeLogCapacity)

theorem ChangeLog.nxChangeLogToJson_ofEvents (log : List LogEntry) :
    (ofEvents log).nxChangeLogToJson = retained log := by
  have hsize : nxChangeLogSize (ofEvents log) = min log.length nxChangeLogCapacity := by
    rw [nxChangeLogSize, total_ofEvents]
    split_ifs <;> omega
  unfold nxChangeLogToJson retained
  simp only [hsize, total_ofEvents]
  refine ext_getElem (by simp; omega) fun i hi _ => ?_
  simp only [length_map, length_range'] at hi
  rw [getElem_map, getElem_range', Nat.one_mul, ring_ofEvents log (by omega) (by omega), getElem_drop]
  exact getElem_congr_idx (by omega)

/-! ### Where the names are -/

/-- The allocation that the name is stored in, if it is not static. -/
def NamePtr.alloc : NamePtr → Option ℕ
  | .slotName _ alloc => alloc
  | .manifestId _ | .instanceId _ => none

/-- The slots whose names the event of a call points to. -/
def RegCall.namedSlots (r : Registry) : RegCall → List SlotId
  | .slotRegister s _ | .slotSwap s _ | .slotUnregister s => s.toList
  | .connectionRegister fromSlot toSlot _ _ _ _ _ => fromSlot.toList ++ toSlot.toList
  | .connectionRetune c _ _ | .connectionUnregister c =>
    c.toList.flatMap fun c => (r.conn c).fromSlot.toList ++ [(r.conn c).toSlot]
  | .slotSetFallback .. | .slotSetPauseState .. | .componentRegister .. | .componentUnregister ..
  | .componentStateSet .. => []

/-- Where the connection leads that a call makes. -/
def RegCall.leadsTo : RegCall → Option SlotId
  | .connectionRegister _ toSlot _ _ _ _ _ => toSlot
  | _ => none

variable {r : Registry}

/-! ### Tasks in the graph -/

/-- The registry, and the slots that are parts of tasks. -/
structure TaskGraph where
  reg : Registry
  /-- The number of the allocation that a slot is in, if it is the `caller_slot` of a task. -/
  owner : SlotId → Option ℕ := fun _ => none
  /-- `caller_slot_active` of that task. -/
  active : SlotId → Bool := fun _ => false
  /-- How many tasks were allocated. -/
  allocs : ℕ := 0
  /-- The allocations that were freed. -/
  freed : List ℕ := []
  /-- `g_task_id_seq` -/
  taskIdSeq : UInt32 := 1
  /-- The pointers in the event of a generation. -/
  names : ℕ → List NamePtr := fun _ => []
  /-- How many events there were when a task was freed last whose name events point to. -/
  released : ℕ := 0

namespace TaskGraph

/-- A call of the registry. -/
def call (g : TaskGraph) (c : RegCall) : TaskGraph × Status :=
  let reg := c.next g.reg
  let names := if c.Emits g.reg then update g.names reg.generation
    ((c.namePtrs g.reg g.owner).filterMap id) else g.names
  ({ g with reg, names }, (c.apply g.reg).2)

/-- An event points to a name in the allocation. -/
def Named (g : TaskGraph) (k : ℕ) : Prop :=
  ∃ gen < g.reg.generation + 1, ∃ p ∈ g.names gen, p.alloc = some k

instance (g : TaskGraph) (k : ℕ) : Decidable (g.Named k) :=
  inferInstanceAs (Decidable (∃ gen < g.reg.generation + 1, ∃ p ∈ g.names gen, p.alloc = some k))

/-- `alloc_task_struct`, at this address. The structure is zeroed. -/
def allocTaskStruct (g : TaskGraph) (t : SlotId) : TaskGraph :=
  { g with
    reg := g.reg.modifySlot t fun _ => {}
    owner := update g.owner t (some g.allocs)
    active := update g.active t false
    allocs := g.allocs + 1 }

/-- `free_task_struct` -/
def freeTaskStruct (g : TaskGraph) (t : SlotId) : TaskGraph :=
  match g.owner t with
  | none => g
  | some k =>
    { g with
      owner := update g.owner t none
      freed := k :: g.freed
      released := if g.Named k then g.reg.generation else g.released }

/-- `render_caller_slot_name`. Ten digits fit in the buffer. -/
def renderCallerSlotName (id : UInt32) : String := "task#" ++ toString id.toNat

/-- `nx_slot_foreach_dependency` with `clone_edge_cb`. After an error the rest is passed over. -/
def cloneEdges (g : TaskGraph) (t : SlotId) (calloc : ℕ → Bool × Bool) : List ConnId → TaskGraph × Status
  | [] => (g, .ok ())
  | parent :: rest =>
    let p := g.reg.conn parent
    match g.call (.connectionRegister (some t) (some p.toSlot) p.mode p.stateful p.policy (calloc rest.length).1
      (calloc rest.length).2) with
    | (g, .ok ()) => cloneEdges g t calloc rest
    | (g, .error e) => (g, .error e)

/-- The loop of `unwire_caller_slot_edges`, at most so many times. -/
def unwireLoop (t : SlotId) : ℕ → TaskGraph → TaskGraph
  | 0, g => g
  | fuel + 1, g =>
    match g.reg.nxSlotForeachDependency (some t) with
    | [] => g
    | first :: _ => unwireLoop t fuel (g.call (.connectionUnregister (some first))).1

/-- `unwire_caller_slot_edges`. Every round takes one edge away (`Wiring.unwireLoop`). -/
def unwireCallerSlotEdges (g : TaskGraph) (t : SlotId) : TaskGraph :=
  unwireLoop t (g.reg.nxSlotForeachDependency (some t)).length g

/-- The edges, the binding and the slot are taken back. -/
def takeBack (g : TaskGraph) (t : SlotId) : TaskGraph :=
  (((g.unwireCallerSlotEdges t).call (.slotSwap (some t) none)).1.call (.slotUnregister (some t))).1

/-- What `wire_caller_slot` stores before it registers the slot. -/
def nameCallerSlot (g : TaskGraph) (t : SlotId) (id : UInt32) : TaskGraph :=
  { g with reg := g.reg.modifySlot t fun s =>
      { s with name := some (renderCallerSlotName id), mutability := .hot, active := none, fallback := none } }

/-- `wire_caller_slot` of a task with this number. Without `posix_shim` nothing is done. The
outcomes of the allocations are those of the slot's node, and of the connections and their nodes. -/
def wireCallerSlot (g : TaskGraph) (t : SlotId) (id : UInt32) (callocSlot : Bool)
    (callocEdge : ℕ → Bool × Bool) : TaskGraph × Status :=
  match g.reg.nxSlotLookup (some "posix_shim") with
  | none => (g, .ok ())
  | some posix =>
    match (g.reg.slot posix).active with
    | none => (g, .ok ())
    | some impl =>
      match (g.nameCallerSlot t id).call (.slotRegister (some t) callocSlot) with
      | (g, .error e) => (g, .error e)
      | (g, .ok ()) =>
        match g.call (.slotSwap (some t) (some impl)) with
        | (g, .error e) => ((g.call (.slotUnregister (some t))).1, .error e)
        | (g, .ok ()) =>
          match g.cloneEdges t callocEdge (g.reg.nxSlotForeachDependency (some posix)) with
          | (g, .error e) => (g.takeBack t, .error e)
          | (g, .ok ()) => ({ g with active := update g.active t true }, .ok ())

/-- `unwire_caller_slot` -/
def unwireCallerSlot (g : TaskGraph) (t : SlotId) : TaskGraph :=
  if g.active t = false then g
  else
    let g := g.takeBack t
    { g with active := update g.active t false }

/-- `nx_task_create`, with the address that `alloc_task_struct` returns. -/
def nxTaskCreate (g : TaskGraph) (entry : Bool) (alloc : Option SlotId) (kstack callocSlot : Bool)
    (callocEdge : ℕ → Bool × Bool) : TaskGraph × Option SlotId :=
  if entry = false then (g, none)
  else
    match alloc with
    | none => (g, none)
    | some t =>
      let g := g.allocTaskStruct t
      if kstack = false then (g.freeTaskStruct t, none)
      else
        match { g with taskIdSeq := g.taskIdSeq + 1 }.wireCallerSlot t g.taskIdSeq callocSlot callocEdge with
        | (g, .ok ()) => (g, some t)
        | (g, .error _) => (g.freeTaskStruct t, none)

/-- `nx_task_destroy` -/
def nxTaskDestroy (g : TaskGraph) (t : SlotId) : TaskGraph := (g.unwireCallerSlot t).freeTaskStruct t

end TaskGraph

/-- A task is created or destroyed, or somebody else changes the graph. -/
inductive TaskStep where
  | create (entry : Bool) (alloc : Option SlotId) (kstack callocSlot : Bool)
      (callocEdge : ℕ → Bool × Bool)
  | destroy (t : SlotId)
  | graph (call : RegCall)

namespace TaskGraph

/-- A step. Memory that is in use is not allocated again, only tasks that there are are destroyed,
and the slots of tasks are left alone by others. -/
def step (g : TaskGraph) : TaskStep → TaskGraph
  | .create entry alloc kstack callocSlot callocEdge =>
    if ∀ t ∈ alloc, g.owner t = none ∧ ¬ g.reg.HasSlot t then
      (g.nxTaskCreate entry alloc kstack callocSlot callocEdge).1
    else g
  | .destroy t => if g.owner t = none then g else g.nxTaskDestroy t
  | .graph c => if ∀ s ∈ c.namedSlots g.reg, g.owner s = none then (g.call c).1 else g

/-- The memory at the pointer is not freed. -/
def Live (g : TaskGraph) (p : NamePtr) : Prop := ∀ k ∈ g.freed, p.alloc ≠ some k

instance (g : TaskGraph) (p : NamePtr) : Decidable (g.Live p) :=
  inferInstanceAs (Decidable (∀ k ∈ g.freed, _))

/-- The names that `nx_change_log_read` hands out. -/
def readNames (g : TaskGraph) (sinceGen max : ℕ) : List NamePtr :=
  ((ChangeLog.ofEvents g.reg.log).nxChangeLogRead sinceGen max).flatMap fun ev => g.names ev.1

/-- The names that `nx_change_log_to_json` follows. It goes on when the buffer is full. -/
def jsonNames (g : TaskGraph) : List NamePtr :=
  (ChangeLog.ofEvents g.reg.log).nxChangeLogToJson.flatMap fun ev => g.names ev.1

end TaskGraph

/-! ### What a call leaves alone -/

namespace RegCall

variable {r : Registry} {c : RegCall}

variable {t : SlotId}

/-- A slot that is registered afterwards was so before, or the call is to register it. -/
theorem hasSlot_of_next (hnames : Names r) (h : (c.next r).HasSlot t) :
    r.HasSlot t ∨ ∃ calloc, c = .slotRegister (some t) calloc := by
  revert h
  refine c.next_inv (I := fun r' => r'.HasSlot t → r.HasSlot t ∨ ∃ calloc, c = .slotRegister
    (some t) calloc) .inl fun r' he h => ?_
  cases he with
  | @slotRegister s =>
    have hcons : r.HasSlot t ∨ t = s := (hasSlot_cons rfl t).mp h
    exact hcons.imp_right fun heq => ⟨true, by rw [heq]⟩
  | slotUnregister => exact .inl ((mem_slots_eraseP hnames _ t).mp h).1
  | connectionRegister =>
      exact .inl ((hasSlot_congr (relink_slots (fun l => r.nextConn :: l) _ _ _) t).mp h)
  | @connectionUnregister
      c => exact .inl ((hasSlot_congr (relink_slots (fun l => l.erase c) _ _ _) t).mp h)
  | _ => exact .inl h

variable {n : ConnId}

/-- Where a connection leads that is registered afterwards: it is an old one, or the one that the
call makes. -/
theorem toSlot_next (hedges : Edges r) (hn : n ∈ (c.next r).connections) :
    n ∈ r.connections ∧ ((c.next r).conn n).toSlot = (r.conn n).toSlot ∨
      c.leadsTo = some ((c.next r).conn n).toSlot := by
  revert hn
  refine c.next_inv (I := fun r' => n ∈ r'.connections → n ∈ r.connections ∧
    (r'.conn n).toSlot = (r.conn n).toSlot ∨
    c.leadsTo = some (r'.conn n).toSlot) (fun hn => .inl ⟨hn, rfl⟩) fun r' he hn => ?_
  cases he with
  | connectionRegister =>
    rcases mem_cons.mp hn with rfl | hn
    · exact .inr (by simp [leadsTo])
    · refine .inl ⟨hn, ?_⟩
      dsimp only
      rw [update_of_ne (hedges.fresh n hn).ne]
  | @connectionRetune c =>
    refine .inl ⟨hn, ?_⟩
    dsimp only
    by_cases hnc : n = c
    · subst hnc
      rw [update_self]
    · rw [update_of_ne hnc]
  | connectionUnregister => exact .inl ⟨mem_of_mem_erase hn, rfl⟩
  | _ => exact .inl ⟨hn, rfl⟩

/-- A new connection takes none away. -/
theorem mem_connections_register {fromSlot toSlot : Option SlotId} {mode : ConnMode}
    {stateful : Bool} {policy : PausePolicy} {a b : Bool} (hn : n ∈ r.connections) :
    n ∈ (RegCall.next r (.connectionRegister fromSlot toSlot mode stateful policy a b)).connections := by
  refine RegCall.next_inv (I := fun r' => n ∈ r'.connections) hn fun r' he => ?_
  cases he with
  | connectionRegister => exact mem_cons_of_mem _ hn

theorem slotSwap_ok (ht : r.HasSlot t) : (RegCall.apply r (.slotSwap (some t) none)).2 = .ok () := by
  obtain ⟨sn, hsn⟩ := Option.ne_none_iff_exists'.mp (Registry.slotNodeFor_ne_none_iff.mpr ht)
  simp [RegCall.apply, Registry.nxSlotSwap, hsn]

theorem slots_slotSwap (s : Option SlotId) (newImpl : Option CompId) :
    (RegCall.next r (.slotSwap s newImpl)).slots = r.slots := by
  refine RegCall.next_inv (I := fun r' => r'.slots = r.slots) rfl fun r' he => ?_
  cases he with
  | slotSwap => rfl

theorem next_connectionUnregister (hn : n ∈ r.connections) :
    (RegCall.next r (.connectionUnregister (some n))).connections = r.connections.erase n ∧
      (RegCall.next r (.connectionUnregister (some n))).conn = r.conn := by
  have hok : (RegCall.apply r (.connectionUnregister (some n))).2 = .ok () := by
    simp [RegCall.apply, Registry.nxConnectionUnregister, hn]
  have heffect := RegCall.effect_of_ok hok
  generalize RegCall.next r (.connectionUnregister (some n)) = r' at heffect
  cases heffect
  exact ⟨rfl, rfl⟩

theorem leadsTo_mem {d : SlotId} (hd : c.leadsTo = some d) : d ∈ c.namedSlots r := by
  cases c with
  | connectionRegister fromSlot toSlot =>
    obtain rfl : toSlot = some d := hd
    simp [namedSlots]
  | _ => cases hd

/-- The pointers to names of slots are those of the named slots. -/
theorem slotName_mem_namePtrs {alloc : SlotId → Option ℕ} {s : SlotId} {a : Option ℕ} :
    some (.slotName s a) ∈ c.namePtrs r alloc ↔ s ∈ c.namedSlots r ∧ a = alloc s := by
  cases c <;>
    simp [namedSlots, namePtrs, @eq_comm _ (some (NamePtr.slotName s a)), Option.bind_eq_some_iff,
      Option.map_eq_some_iff]
  all_goals grind

theorem mem_namePtrs {alloc : SlotId → Option ℕ} {p : NamePtr} {k : ℕ} (hp : some p ∈ c.namePtrs r alloc)
    (hk : p.alloc = some k) : ∃ s ∈ c.namedSlots r, alloc s = some k := by
  cases p with
  | manifestId => cases hk
  | instanceId => cases hk
  | slotName s a =>
    obtain ⟨hs, ha⟩ := slotName_mem_namePtrs.mp hp
    exact ⟨s, hs, ha.symm.trans hk⟩

end RegCall

/-- A store to a slot that is not registered. -/
theorem Consistent.modifySlot (h : Consistent r) {t : SlotId} (ht : ¬ r.HasSlot t) (f : Slot → Slot) :
    Consistent (r.modifySlot t f) := by
  have hslot : ∀ n ∈ r.slots, (r.modifySlot t f).slot n.slot = r.slot n.slot := by
    intro n hn
    have hne : n.slot ≠ t := fun heq => ht (heq ▸ hasSlot_of_mem hn)
    exact update_of_ne hne _ _
  refine ⟨⟨h.counts.slots, h.counts.components, h.counts.connections⟩, ⟨fun n hn => ?_, ?_⟩,
    h.edges.congr rfl rfl rfl fun c => ⟨rfl, rfl⟩⟩
  · rw [hslot n hn]
    exact h.names.named n hn
  · have hmap : ((r.modifySlot t f).slots.map fun n => ((r.modifySlot t f).slot n.slot).name) =
        r.slots.map fun n => (r.slot n.slot).name := map_congr_left fun n hn => by rw [hslot n hn]
    rw [hmap]
    exact h.names.nodup

namespace TaskGraph

variable {g : TaskGraph} {c : RegCall} {t u : SlotId} {k : ℕ}

@[simp] theorem reg_call : (g.call c).1.reg = c.next g.reg := rfl
@[simp] theorem owner_call : (g.call c).1.owner = g.owner := rfl
@[simp] theorem released_call : (g.call c).1.released = g.released := rfl

/-- The generation goes up with an event. -/
theorem generation_call : (c.next g.reg).generation = if c.Emits g.reg then g.reg.generation + 1
    else g.reg.generation := by
  split_ifs with hemits
  · exact (RegCall.next_of_emits hemits).1
  · exact (RegCall.next_of_not_emits hemits).1

theorem generation_le_call : g.reg.generation ≤ (c.next g.reg).generation := by
  rw [generation_call]
  split_ifs <;> omega

/-- Older events keep their pointers. -/
theorem names_call_of_le {gen : ℕ} (h : gen ≤ g.reg.generation) :
    (g.call c).1.names gen = g.names gen := by
  unfold call
  dsimp only
  split_ifs with hemits
  · have hgen := (RegCall.next_of_emits hemits).1
    exact update_of_ne (by omega) _ _
  · rfl

theorem mem_names_call {gen : ℕ} {p : NamePtr} (hp : p ∈ (g.call c).1.names gen) :
    p ∈ g.names gen ∨ gen = (c.next g.reg).generation ∧ some p ∈ c.namePtrs g.reg g.owner := by
  unfold call at hp
  dsimp only at hp
  split_ifs at hp with hemits
  · by_cases hgen : gen = (c.next g.reg).generation
    · subst hgen
      rw [update_self] at hp
      exact .inr ⟨rfl, by simpa using hp⟩
    · rw [update_of_ne hgen] at hp
      exact .inl hp
  · exact .inl hp

/-- A call that fails changes nothing. -/
theorem call_error {e : Err} (h : (g.call c).2 = .error e) : (g.call c).1 = g := by
  have hnext : c.next g.reg = g.reg := RegCall.apply_error h
  have hemits : ¬ c.Emits g.reg := by
    intro hemits
    cases hemits.1.symm.trans h
  simp [call, hnext, hemits]

/-- The last event points to a name in the allocation. -/
def LastNames (g : TaskGraph) (k : ℕ) : Prop := ∃ p ∈ g.names g.reg.generation, p.alloc = some k

/-- A call with an event points to the names of its slots. -/
theorem lastNames_of_emits (hemits : c.Emits g.reg) (ht : t ∈ c.namedSlots g.reg)
    (hk : g.owner t = some k) : (g.call c).1.LastNames k := by
  refine ⟨.slotName t (some k), ?_, rfl⟩
  simp only [call, if_pos hemits, update_self, mem_filterMap, id, exists_eq_right]
  exact RegCall.slotName_mem_namePtrs.mpr ⟨ht, hk.symm⟩

theorem LastNames.call (h : g.LastNames k) (ht : t ∈ c.namedSlots g.reg) (hk : g.owner t = some k) :
    (g.call c).1.LastNames k := by
  by_cases hemits : c.Emits g.reg
  · exact lastNames_of_emits hemits ht hk
  · unfold LastNames
    rw [reg_call, (RegCall.next_of_not_emits hemits).1, names_call_of_le le_rfl]
    exact h

/-! ### The invariant -/

/-- What every call of the registry keeps, by whomever. -/
structure Tracked (g : TaskGraph) : Prop where
  consistent : Consistent g.reg
  /-- No connection leads to the slot of a task. -/
  toStatic : ∀ n ∈ g.reg.connections, g.owner (g.reg.conn n).toSlot = none
  owner : ∀ t k, g.owner t = some k → k < g.allocs ∧ k ∉ g.freed
  inj : ∀ t u k, g.owner t = some k → g.owner u = some k → t = u
  log : g.reg.log.map Prod.fst = List.range' 1 g.reg.generation
  names : ∀ gen p k, p ∈ g.names gen → p.alloc = some k →
    gen ≤ g.reg.generation ∧ k < g.allocs ∧ (k ∈ g.freed → gen ≤ g.released)
  freed : ∀ k ∈ g.freed, k < g.allocs
  released_le : g.released ≤ g.reg.generation
  released : g.released = 0 ∨ ∃ p ∈ g.names g.released, ∃ k ∈ g.freed, p.alloc = some k

theorem Tracked.call (h : g.Tracked) (hto : ∀ d, c.leadsTo = some d → g.owner d = none) :
    (g.call c).1.Tracked where
  consistent := h.consistent.next c
  toStatic n hn := by
    rcases RegCall.toSlot_next h.consistent.edges hn with ⟨hold, heq⟩ | hnew
    · rw [owner_call, reg_call, heq]
      exact h.toStatic n hold
    · exact hto _ hnew
  owner := h.owner
  inj := h.inj
  log := by
    by_cases hemits : c.Emits g.reg
    · obtain ⟨hgen, ev, hlog⟩ := RegCall.next_of_emits hemits
      rw [reg_call, hgen, hlog, map_append, h.log, range'_concat]
      simp [Nat.add_comm]
    · obtain ⟨hgen, hlog⟩ := RegCall.next_of_not_emits hemits
      rw [reg_call, hgen, hlog, h.log]
  names gen p k hp hk := by
    rcases mem_names_call hp with hold | ⟨hgen, hnew⟩
    · obtain ⟨hle, hrest⟩ := h.names gen p k hold hk
      exact ⟨hle.trans generation_le_call, hrest⟩
    · -- What is written now is in memory that is in use.
      obtain ⟨s, -, hs⟩ := RegCall.mem_namePtrs hnew hk
      exact ⟨hgen.le, (h.owner s k hs).1, fun hfreed => absurd hfreed (h.owner s k hs).2⟩
  freed := h.freed
  released_le := h.released_le.trans generation_le_call
  released := by
    rw [released_call, names_call_of_le h.released_le]
    exact h.released

/-- A store to a slot that is not registered. -/
theorem Tracked.modifySlot (h : g.Tracked) (ht : ¬ g.reg.HasSlot t) (f : Slot → Slot) :
    ({ g with reg := g.reg.modifySlot t f } : TaskGraph).Tracked :=
  { h with consistent := h.consistent.modifySlot ht f }

/-- A task is allocated. -/
theorem Tracked.alloc (h : g.Tracked) (ht : ¬ g.reg.HasSlot t) : (g.allocTaskStruct t).Tracked := by
  have hold : ∀ u k, (g.allocTaskStruct t).owner u = some k → u = t ∧ k = g.allocs ∨ u ≠ t ∧
      g.owner u = some k := by
    intro u k hu
    by_cases hut : u = t
    · subst hut
      exact .inl ⟨rfl, by simpa [allocTaskStruct, eq_comm] using hu⟩
    · exact .inr ⟨hut, by simpa [allocTaskStruct, hut] using hu⟩
  refine ⟨h.consistent.modifySlot ht fun _ => {}, fun n hn => ?_, fun u k hu => ?_,
    fun u v k hu hv => ?_, h.log, fun gen p k hp hk => ?_, fun k hk => (h.freed k hk).trans
      (Nat.lt_succ_self _), h.released_le, h.released⟩
  · have hne : (g.reg.conn n).toSlot ≠ t := fun heq => ht (heq ▸ h.consistent.edges.toSlot n hn)
    exact (update_of_ne hne _ _).trans (h.toStatic n hn)
  · rcases hold u k hu with ⟨-, rfl⟩ | ⟨-, hu⟩
    · exact ⟨Nat.lt_succ_self _, fun hfreed => (h.freed _ hfreed).false⟩
    · exact ⟨(h.owner u k hu).1.trans (Nat.lt_succ_self _), (h.owner u k hu).2⟩
  · rcases hold u k hu with ⟨hut, hnew⟩ | ⟨-, hu⟩ <;> rcases hold v k hv with ⟨hvt, hnew'⟩ | ⟨-, hv⟩
    · rw [hut, hvt]
    · exact absurd (h.owner v k hv).1 hnew.not_lt
    · exact absurd (h.owner u k hu).1 hnew'.not_lt
    · exact h.inj u v k hu hv
  · obtain ⟨hle, hlt, hfreed⟩ := h.names gen p k hp hk
    exact ⟨hle, hlt.trans (Nat.lt_succ_self _), hfreed⟩

/-- A task is freed. If events point to its name, the last one does. -/
theorem Tracked.free (h : g.Tracked) (hk : g.owner t = some k) (hlast : g.Named k → g.LastNames k) :
    (g.freeTaskStruct t).Tracked := by
  have hold : ∀ u k', update g.owner t none u = some k' → u ≠ t ∧ g.owner u = some k' := by
    intro u k' hu
    by_cases hut : u = t
    · subst hut
      simp at hu
    · exact ⟨hut, by rwa [update_of_ne hut] at hu⟩
  simp only [freeTaskStruct, hk]
  refine ⟨h.consistent, fun n hn => ?_, fun u k' hu => ?_, fun u v k' hu hv => ?_, h.log,
    fun gen p k' hp hk' => ?_, ?_, ?_, ?_⟩
  · dsimp only
    rw [update_apply]
    split_ifs
    · rfl
    · exact h.toStatic n hn
  · obtain ⟨hut, howner⟩ := hold u k' hu
    refine ⟨(h.owner u k' howner).1, fun hmem => ?_⟩
    rcases mem_cons.mp hmem with rfl | hmem
    · exact hut (h.inj u t _ howner hk)
    · exact (h.owner u k' howner).2 hmem
  · exact h.inj u v k' (hold u k' hu).2 (hold v k' hv).2
  · obtain ⟨hle, hlt, hfreed⟩ := h.names gen p k' hp hk'
    refine ⟨hle, hlt, fun hmem => ?_⟩
    dsimp only
    split_ifs with hnamed
    · exact hle
    · rcases mem_cons.mp hmem with rfl | hmem
      · exact absurd ⟨gen, Nat.lt_succ_of_le hle, p, hp, hk'⟩ hnamed
      · exact hfreed hmem
  · intro k' hmem
    rcases mem_cons.mp hmem with rfl | hmem
    · exact (h.owner t k' hk).1
    · exact h.freed k' hmem
  · dsimp only
    split_ifs
    · exact le_rfl
    · exact h.released_le
  · dsimp only
    split_ifs with hnamed
    · obtain ⟨p, hp, hpk⟩ := hlast hnamed
      exact .inr ⟨p, hp, k, mem_cons_self, hpk⟩
    · exact h.released.imp_right fun ⟨p, hp, k', hk', hpk⟩ => ⟨p, hp, k', mem_cons_of_mem _ hk', hpk⟩

/-- A task between two steps: its slot is registered or, if it is not wired, no event has its
name. -/
def Wired (g : TaskGraph) (u : SlotId) : Prop :=
  ∀ k, g.owner u = some k →
    (g.active u = true → g.reg.HasSlot u) ∧ (g.active u = false → ¬ g.reg.HasSlot u ∧ ¬ g.Named k)

/-- A call that is about others. -/
theorem Wired.call (hg : g.Tracked) (h : g.Wired u) (hu : u ∉ c.namedSlots g.reg) :
    (g.call c).1.Wired u := by
  intro k hk
  obtain ⟨hactive, hinactive⟩ := h k hk
  refine ⟨fun ha => hasSlot_next hg.consistent.names (hactive ha) ?_, fun ha => ⟨fun hhas => ?_, ?_⟩⟩
  · rintro - - rfl
    exact hu (by simp [RegCall.namedSlots])
  · rcases RegCall.hasSlot_of_next hg.consistent.names hhas with hhas | ⟨calloc, rfl⟩
    · exact (hinactive ha).1 hhas
    · exact hu (by simp [RegCall.namedSlots])
  · rintro ⟨gen, -, p, hp, hpk⟩
    rcases mem_names_call hp with hp | ⟨-, hp⟩
    · exact (hinactive ha).2 ⟨gen, Nat.lt_succ_of_le (hg.names gen p k hp hpk).1, p, hp, hpk⟩
    · obtain ⟨s, hs, hsk⟩ := RegCall.mem_namePtrs hp hpk
      exact hu (hg.inj s u k hsk hk ▸ hs)

/-- The invariant: what calls keep, and every task is wired or was not registered. -/
structure Good (g : TaskGraph) : Prop where
  tracked : g.Tracked
  wired : ∀ u, g.Wired u

/-- In the middle of the wiring of a task. -/
structure Wiring (t : SlotId) (k : ℕ) (g : TaskGraph) : Prop where
  tracked : g.Tracked
  owner : g.owner t = some k
  others : ∀ u ≠ t, g.Wired u

/-- A call about the slot of the task and static ones. -/
theorem Wiring.call (h : Wiring t k g) (hc : ∀ s ∈ c.namedSlots g.reg, s = t ∨ g.owner s = none)
    (hto : ∀ d, c.leadsTo = some d → g.owner d = none) : Wiring t k (g.call c).1 := by
  refine ⟨h.tracked.call hto, h.owner, fun u hut => ?_⟩
  by_cases hu : u ∈ c.namedSlots g.reg
  · intro k' hk'
    rcases hc u hu with rfl | hnone
    · exact absurd rfl hut
    · rw [owner_call, hnone] at hk'
      cases hk'
  · exact (h.others u hut).call h.tracked hu

/-- A call about the slot of the task alone. -/
theorem Wiring.call_self (h : Wiring t k g) (hc : c.namedSlots g.reg = [t]) (hto : c.leadsTo = none) :
    Wiring t k (g.call c).1 :=
  h.call (fun s hs => .inl (by simpa [hc] using hs)) fun d hd => by simp [hto] at hd

/-- `caller_slot_active` is set. -/
theorem Wiring.setActive (h : Wiring t k g) (a : Bool) :
    Wiring t k { g with active := update g.active t a } := by
  refine ⟨{ h.tracked with }, h.owner, fun u hut k' hk' => ?_⟩
  dsimp only
  rw [update_of_ne hut]
  exact h.others u hut k' hk'

theorem Wiring.cloneEdges (calloc : ℕ → Bool × Bool) (parents : List ConnId) (h : Wiring t k g)
    (hs : g.reg.HasSlot t) (hparents : ∀ n ∈ parents, n ∈ g.reg.connections) :
    Wiring t k (g.cloneEdges t calloc parents).1 ∧ (g.cloneEdges t calloc parents).1.reg.HasSlot t := by
  induction parents generalizing g with
  | nil => exact ⟨h, hs⟩
  | cons parent rest ih =>
    rw [forall_mem_cons] at hparents
    have hstatic := h.tracked.toStatic parent hparents.1
    rw [TaskGraph.cloneEdges]
    generalize hc : RegCall.connectionRegister (some t) (some (g.reg.conn parent).toSlot)
      (g.reg.conn parent).mode
      (g.reg.conn parent).stateful (g.reg.conn parent).policy (calloc rest.length).1
        (calloc rest.length).2 = c
    have hnext : Wiring t k (g.call c).1 := by
      subst hc
      refine h.call (fun s hs => ?_) fun d hd => ?_
      · simp only [RegCall.namedSlots, Option.toList_some, mem_append, mem_singleton] at hs
        rcases hs with hs | rfl
        · exact .inl hs
        · exact .inr hstatic
      · obtain rfl : (g.reg.conn parent).toSlot = d := by simpa [RegCall.leadsTo] using hd
        exact hstatic
    have hslot : (g.call c).1.reg.HasSlot t := by
      subst hc
      exact hasSlot_next h.tracked.consistent.names hs (by simp)
    have hrest : ∀ n ∈ rest, n ∈ (g.call c).1.reg.connections := by
      subst hc
      exact fun n hn => RegCall.mem_connections_register (hparents.2 n hn)
    split
    · rename_i g' heq
      rw [heq] at hnext hslot hrest
      exact ih hnext hslot hrest
    · rename_i g' e heq
      rw [heq] at hnext hslot
      exact ⟨hnext, hslot⟩

/-- One round of the loop. -/
theorem Wiring.unregisterFirst (h : Wiring t k g) (hs : g.reg.HasSlot t) {first : ConnId}
    {rest : List ConnId} (hdeps : g.reg.nxSlotForeachDependency (some t) = first :: rest) :
    Wiring t k (g.call (.connectionUnregister (some first))).1 ∧
      (g.call (.connectionUnregister (some first))).1.reg.HasSlot t ∧
        ((g.call (.connectionUnregister (some first))).1.reg.nxSlotForeachDependency
          (some t)).length = rest.length := by
  have hlist := h.tracked.consistent.dependencies t
  obtain ⟨hmem, hfrom⟩ := (hlist.2 first).mp (hdeps ▸ mem_cons_self)
  have hslot : (g.call (.connectionUnregister (some first))).1.reg.HasSlot t :=
    hasSlot_next h.tracked.consistent.names hs (by simp)
  have hnext : Wiring t k (g.call (.connectionUnregister (some first))).1 := by
    refine h.call (fun s hs => ?_) fun d hd => by simp [RegCall.leadsTo] at hd
    have hs' : s = t ∨ s = (g.reg.conn first).toSlot := by simpa [RegCall.namedSlots, hfrom] using hs
    rcases hs' with hs' | rfl
    · exact .inl hs'
    · exact .inr (h.tracked.toStatic first hmem)
  refine ⟨hnext, hslot, ?_⟩
  -- Both lists have each connection once, and the one has all of the other but the first.
  have hold := hlist.erase first
  have hnew := hnext.tracked.consistent.dependencies t
  obtain ⟨hconns, hconn⟩ := RegCall.next_connectionUnregister hmem
  have hperm := (perm_ext_iff_of_nodup hnew.1 hold.1).mpr fun n => by
    rw [hnew.2, hold.2, reg_call, hconns, hconn]
    dsimp only
    rw [h.tracked.consistent.edges.nodup.mem_erase_iff, and_assoc]
  rw [hperm.length_eq, hdeps, erase_cons_head]

/-- **The edges are gone** after the loop, which ends. -/
theorem Wiring.unwireLoop {fuel : ℕ} (h : Wiring t k g) (hs : g.reg.HasSlot t)
    (hfuel : (g.reg.nxSlotForeachDependency (some t)).length = fuel) :
    Wiring t k (g.unwireLoop t fuel) ∧ (g.unwireLoop t fuel).reg.HasSlot t ∧
      (g.unwireLoop t fuel).reg.nxSlotForeachDependency (some t) = [] := by
  induction fuel generalizing g with
  | zero => exact ⟨h, hs, length_eq_zero_iff.mp hfuel⟩
  | succ fuel ih =>
    rw [TaskGraph.unwireLoop]
    split
    · rename_i hnil
      rw [hnil] at hfuel
      cases hfuel
    · rename_i first rest hdeps
      obtain ⟨hnext, hslot, hlen⟩ := h.unregisterFirst hs hdeps
      rw [hdeps, length_cons] at hfuel
      exact ih hnext hslot (hlen.trans (Nat.succ_injective hfuel))

/-- Nothing leads to the slot of a task. -/
theorem Wiring.dependent_eq_nil (h : Wiring t k g) : g.reg.nxSlotForeachDependent (some t) = [] := by
  unfold Registry.nxSlotForeachDependent
  cases hsn : g.reg.slotNodeFor (some t) with
  | none => rfl
  | some sn =>
    obtain ⟨hmem, hslot⟩ := Registry.slotNodeFor_some hsn
    refine eq_nil_iff_forall_not_mem.mpr fun n hn => ?_
    obtain ⟨hconn, hto⟩ := ((h.tracked.consistent.edges.incoming sn hmem).2 n).mp hn
    have := h.tracked.toStatic n hconn
    rw [hto, hslot, h.owner] at this
    cases this

/-- **Taking back.** The slot is unregistered, and the last event has its name. -/
theorem Wiring.takeBack (h : Wiring t k g) (hs : g.reg.HasSlot t) :
    Wiring t k (g.takeBack t) ∧ (g.takeBack t).LastNames k ∧ ¬ (g.takeBack t).reg.HasSlot t := by
  obtain ⟨hedges, hslot, hdeps⟩ := h.unwireLoop hs rfl
  unfold TaskGraph.takeBack TaskGraph.unwireCallerSlotEdges
  generalize g.unwireLoop t _ = g₁ at hedges hslot hdeps ⊢
  have hswap : Wiring t k (g₁.call (.slotSwap (some t) none)).1 := hedges.call_self rfl rfl
  have hlast : (g₁.call (.slotSwap (some t) none)).1.LastNames k :=
    lastNames_of_emits ⟨RegCall.slotSwap_ok hslot, id⟩ (mem_singleton_self t) hedges.owner
  have hslot₂ : (g₁.call (.slotSwap (some t) none)).1.reg.HasSlot t :=
    hasSlot_next hedges.tracked.consistent.names hslot (by simp)
  have hdeps₂ : (g₁.call (.slotSwap (some t) none)).1.reg.nxSlotForeachDependency (some t) = [] := by
    rw [← hdeps]
    simp only [Registry.nxSlotForeachDependency, Registry.slotNodeFor, reg_call, RegCall.slots_slotSwap]
  generalize (g₁.call (.slotSwap (some t) none)).1 = g₂ at hswap hlast hslot₂ hdeps₂
  refine ⟨hswap.call_self rfl rfl, hlast.call (mem_singleton_self t) hswap.owner, ?_⟩
  have hok := slotUnregister_ok hslot₂ hswap.dependent_eq_nil hdeps₂
  have heffect := RegCall.effect_of_ok hok
  rw [reg_call]
  generalize RegCall.next g₂.reg (.slotUnregister (some t)) = r' at heffect
  cases heffect with
  | slotUnregister => exact fun hhas =>
      ((mem_slots_eraseP hswap.tracked.consistent.names t t).mp hhas).2 rfl

/-- A slot that was registered just now. -/
theorem Wiring.slotRegister (h : Wiring t k g) {calloc : Bool}
    (hok : (g.call (.slotRegister (some t) calloc)).2 = .ok ()) :
    Wiring t k (g.call (.slotRegister (some t) calloc)).1 ∧
      (g.call (.slotRegister (some t) calloc)).1.reg.HasSlot t ∧
      (g.call (.slotRegister (some t) calloc)).1.LastNames k := by
  refine ⟨h.call_self rfl rfl, ?_, lastNames_of_emits ⟨hok, id⟩ (mem_singleton_self t) h.owner⟩
  have heffect := RegCall.effect_of_ok hok
  rw [reg_call]
  generalize RegCall.next g.reg (.slotRegister (some t) calloc) = r' at heffect
  cases heffect with
  | slotRegister => exact (hasSlot_cons rfl t).mpr (.inr rfl)

/-- What is to be shown of the wiring: if it succeeds, the task is wired, or was left alone; if it
fails, the last event has the name of the slot, if one has it. -/
structure WiredOr (t : SlotId) (k : ℕ) (res : TaskGraph × Status) : Prop where
  wiring : Wiring t k res.1
  ok : res.2 = .ok () → res.1.Wired t
  error : res.2 ≠ .ok () → res.1.Named k → res.1.LastNames k

theorem Wiring.wireCallerSlot (h : Wiring t k g) (hactive : g.active t = false)
    (hslot : ¬ g.reg.HasSlot t) (hnamed : ¬ g.Named k) (id : UInt32) (callocSlot : Bool)
    (callocEdge : ℕ → Bool × Bool) : WiredOr t k (g.wireCallerSlot t id callocSlot callocEdge) := by
  have hleft : WiredOr t k (g, .ok ()) := by
    refine ⟨h, fun _ k' hk' => ?_, fun hne => absurd rfl hne⟩
    obtain rfl : k = k' := Option.some_inj.mp (h.owner.symm.trans hk')
    exact ⟨fun ha => by simp [hactive] at ha, fun _ => ⟨hslot, hnamed⟩⟩
  unfold TaskGraph.wireCallerSlot
  split
  · exact hleft
  rename_i posix hposix
  split
  · exact hleft
  rename_i impl himpl
  have hname : Wiring t k (g.nameCallerSlot t id) := ⟨h.tracked.modifySlot hslot _, h.owner, h.others⟩
  have hunnamed : ¬ (g.nameCallerSlot t id).Named k := hnamed
  generalize g.nameCallerSlot t id = g₁ at hname hunnamed
  split
  · rename_i g₂ e heq
    obtain rfl : g₁ = g₂ := by
      have := call_error (congrArg Prod.snd heq)
      rw [heq] at this
      exact this.symm
    exact ⟨hname, fun hok => (by cases hok), fun _ hnew => absurd hnew hunnamed⟩
  rename_i g₂ heq
  have hreg := hname.slotRegister (congrArg Prod.snd heq)
  rw [heq] at hreg
  obtain ⟨hwiring, hslot₂, hlast⟩ := hreg
  have hswap : Wiring t k (g₂.call (.slotSwap (some t) (some impl))).1 := hwiring.call_self rfl rfl
  have hslot₃ : (g₂.call (.slotSwap (some t) (some impl))).1.reg.HasSlot t :=
    hasSlot_next hwiring.tracked.consistent.names hslot₂ (by simp)
  have hlast₃ : (g₂.call (.slotSwap (some t) (some impl))).1.LastNames k :=
    hlast.call (mem_singleton_self t) hwiring.owner
  split
  · rename_i g₃ e heq₃
    rw [heq₃] at hswap hlast₃
    exact ⟨hswap.call_self rfl rfl, fun hok => (by cases hok),
      fun _ _ => hlast₃.call (mem_singleton_self t) hswap.owner⟩
  rename_i g₃ heq₃
  rw [heq₃] at hswap hslot₃
  have hclone := hswap.cloneEdges callocEdge (g₃.reg.nxSlotForeachDependency (some posix)) hslot₃
    fun n hn =>
    (((hswap.tracked.consistent.dependencies posix).2 n).mp hn).1
  split
  · rename_i g₄ e heq₄
    rw [heq₄] at hclone
    obtain ⟨hback, hlast₄, -⟩ := hclone.1.takeBack hclone.2
    exact ⟨hback, fun hok => (by cases hok), fun _ _ => hlast₄⟩
  · rename_i g₄ heq₄
    rw [heq₄] at hclone
    obtain ⟨hwired, hslot₄⟩ := hclone
    exact ⟨hwired.setActive true, fun _ k' _ => ⟨fun _ => hslot₄, fun ha => by simp at ha⟩,
      fun hne => absurd rfl hne⟩

/-- The task is freed. -/
theorem Wiring.free (h : Wiring t k g) (hlast : g.Named k → g.LastNames k) :
    (g.freeTaskStruct t).Good := by
  refine ⟨h.tracked.free h.owner hlast, fun u => ?_⟩
  simp only [freeTaskStruct, h.owner]
  intro k' hk'
  by_cases hut : u = t
  · subst hut
    simp at hk'
  · exact h.others u hut k' (by simpa [hut] using hk')

theorem Good.create (h : g.Good) (hslot : ¬ g.reg.HasSlot t) (entry kstack callocSlot : Bool)
    (callocEdge : ℕ → Bool × Bool) :
    (g.nxTaskCreate entry (some t) kstack callocSlot callocEdge).1.Good := by
  have halloc : Wiring t g.allocs (g.allocTaskStruct t) := by
    refine ⟨h.tracked.alloc hslot, update_self .., fun u hut k' hk' => ?_⟩
    have hk : g.owner u = some k' := by simpa [allocTaskStruct, hut] using hk'
    obtain ⟨hactive, hinactive⟩ := h.wired u k' hk
    exact ⟨fun ha => hactive (by simpa [allocTaskStruct, hut] using ha),
      fun ha => hinactive (by simpa [allocTaskStruct, hut] using ha)⟩
  have hnamed : ¬ (g.allocTaskStruct t).Named g.allocs := by
    rintro ⟨gen, -, p, hp, hpk⟩
    exact lt_irrefl _ (h.tracked.names gen p _ hp hpk).2.1
  have hactive : (g.allocTaskStruct t).active t = false := update_self ..
  have hslot' : ¬ (g.allocTaskStruct t).reg.HasSlot t := hslot
  unfold nxTaskCreate
  dsimp only
  generalize g.allocTaskStruct t = g₁ at halloc hnamed hactive hslot'
  split_ifs with hentry hkstack
  · exact h
  · exact halloc.free fun hnew => absurd hnew hnamed
  have hcount : Wiring t g.allocs { g₁ with taskIdSeq := g₁.taskIdSeq + 1 } :=
    ⟨{ halloc.tracked with }, halloc.owner, halloc.others⟩
  have hwire := hcount.wireCallerSlot hactive hslot' hnamed g₁.taskIdSeq callocSlot callocEdge
  split
  · rename_i g₂ heq
    rw [heq] at hwire
    refine ⟨hwire.wiring.tracked, fun u => ?_⟩
    by_cases hut : u = t
    · exact hut ▸ hwire.ok rfl
    · exact hwire.wiring.others u hut
  · rename_i g₂ e heq
    rw [heq] at hwire
    exact hwire.wiring.free (hwire.error (by simp))

/-- **A task is destroyed**: its slot has been unregistered when it is freed. -/
theorem Good.unwireCallerSlot_unregisters (h : g.Good) (hk : g.owner t = some k) :
    Wiring t k (g.unwireCallerSlot t) ∧
      ((g.unwireCallerSlot t).Named k → (g.unwireCallerSlot t).LastNames k) ∧
      ¬ (g.unwireCallerSlot t).reg.HasSlot t := by
  have hwiring : Wiring t k g := ⟨h.tracked, hk, fun u _ => h.wired u⟩
  obtain ⟨hactive, hinactive⟩ := h.wired t k hk
  unfold unwireCallerSlot
  split_ifs with ha
  · exact ⟨hwiring, fun hnamed => absurd hnamed (hinactive ha).2, (hinactive ha).1⟩
  · rw [Bool.not_eq_false] at ha
    obtain ⟨hback, hlast, hslot⟩ := hwiring.takeBack (hactive ha)
    exact ⟨hback.setActive false, fun _ => hlast, hslot⟩

theorem Good.destroy (h : g.Good) (hk : g.owner t = some k) : (g.nxTaskDestroy t).Good := by
  obtain ⟨hwiring, hlast, -⟩ := h.unwireCallerSlot_unregisters hk
  exact hwiring.free hlast

theorem Good.graph (h : g.Good) (hc : ∀ s ∈ c.namedSlots g.reg, g.owner s = none) :
    (g.call c).1.Good := by
  refine ⟨h.tracked.call fun d hd => hc d (RegCall.leadsTo_mem hd), fun u => ?_⟩
  by_cases hu : u ∈ c.namedSlots g.reg
  · intro k hk
    rw [owner_call, hc u hu] at hk
    cases hk
  · exact (h.wired u).call h.tracked hu

theorem Good.step (h : g.Good) (a : TaskStep) : (g.step a).Good := by
  cases a with
  | create entry alloc kstack callocSlot callocEdge =>
    simp only [TaskGraph.step]
    split_ifs with hfree
    · cases alloc with
      | none =>
        unfold nxTaskCreate
        split <;> exact h
      | some t => exact h.create (hfree t rfl).2 entry kstack callocSlot callocEdge
    · exact h
  | destroy t =>
    simp only [TaskGraph.step]
    split_ifs with hnone
    · exact h
    · obtain ⟨k, hk⟩ := Option.ne_none_iff_exists'.mp hnone
      exact h.destroy hk
  | graph c =>
    simp only [TaskGraph.step]
    split_ifs with hc
    · exact h.graph hc
    · exact h

theorem good_boot (slot : SlotId → Slot) (comp : CompId → Component) :
    ({ reg := bootRegistry slot comp } : TaskGraph).Good where
  tracked := ⟨consistent_boot slot comp,
    by simp [bootRegistry], by simp, by simp, rfl, by simp, by simp, Nat.zero_le _, .inl rfl⟩
  wired u k hk := by simp at hk

/-! ### Reading the log -/

/-- What is in the ring are the events of the last 256 generations. -/
theorem Tracked.retained_generations (h : g.Tracked) : (ChangeLog.retained g.reg.log).map Prod.fst =
    List.range' (1 + (g.reg.generation - nxChangeLogCapacity))
      (g.reg.generation - (g.reg.generation - nxChangeLogCapacity)) := by
  have hlen : g.reg.log.length = g.reg.generation := by simpa using congrArg List.length h.log
  rw [ChangeLog.retained, map_drop, h.log, hlen, drop_range', Nat.mul_one]

/-- Who follows the names of all retained events from some generation on meets freed memory exactly
if the events of the last release are among them. -/
theorem Tracked.forall_live_iff (h : g.Tracked) (sinceGen : ℕ) :
    (∀ ev ∈ ChangeLog.retained g.reg.log, sinceGen < ev.1 → ∀ p ∈ g.names ev.1, g.Live p) ↔
      g.released ≤ sinceGen ∨ g.released + nxChangeLogCapacity ≤ g.reg.generation := by
  have hmem : ∀ gen, gen ∈ (ChangeLog.retained g.reg.log).map Prod.fst ↔
      1 ≤ gen ∧ gen ≤ g.reg.generation ∧ g.reg.generation < gen + nxChangeLogCapacity := by
    intro gen
    rw [h.retained_generations, mem_range'_1]
    omega
  constructor
  · intro hlive
    by_contra hnot
    rw [not_or, not_le, not_le] at hnot
    obtain ⟨ev, hev, hgen⟩ := mem_map.mp ((hmem g.released).mpr ⟨by omega, h.released_le, hnot.2⟩)
    rcases h.released with hzero | ⟨p, hp, k, hk, hpk⟩
    · omega
    · exact hlive ev hev (hgen ▸ hnot.1) p (hgen ▸ hp) k hk hpk
  · intro hok ev hev hsince p hp k hk hpk
    have hle := (h.names ev.1 p k hp hpk).2.2 hk
    have hkept := (hmem ev.1).mp (mem_map_of_mem hev)
    omega

/-- **The names in the change log.** After any run of creations and destructions of tasks, and of
changes of the graph by others, all names that `nx_change_log_read` can hand out of events after a
generation are in memory that is not freed exactly if no task with a registered slot was freed after
that generation, or 256 events came since the last one was. So it is with the names that
`nx_change_log_to_json` follows, with all generations. -/
theorem log_names_live_iff (slot : SlotId → Slot) (comp : CompId → Component) (steps : List TaskStep) :
    let g := runFrom TaskGraph.step { reg := bootRegistry slot comp } steps
    (∀ sinceGen, (∀ max, ∀ p ∈ g.readNames sinceGen max, g.Live p) ↔
        g.released ≤ sinceGen ∨
        g.released + nxChangeLogCapacity ≤ (ChangeLog.ofEvents g.reg.log).total) ∧
      ((∀ p ∈ g.jsonNames, g.Live p) ↔
        g.released = 0 ∨ g.released + nxChangeLogCapacity ≤ (ChangeLog.ofEvents g.reg.log).total) := by
  intro g
  have h : g.Good := runFrom_inv Good (fun _ a hg => hg.step a) (good_boot slot comp) steps
  have htotal : (ChangeLog.ofEvents g.reg.log).total = g.reg.generation := by
    rw [ChangeLog.total_ofEvents]
    simpa using congrArg List.length h.tracked.log
  rw [htotal]
  refine ⟨fun sinceGen => ?_, ?_⟩
  · rw [← h.tracked.forall_live_iff sinceGen]
    simp only [readNames, ChangeLog.nxChangeLogRead_ofEvents, mem_flatMap]
    constructor
    · -- A buffer that is large enough takes them all.
      intro hlive ev hev hsince p hp
      refine hlive (ChangeLog.retained g.reg.log).length p ⟨ev, ?_, hp⟩
      rw [take_of_length_le (length_filter_le _ _)]
      exact mem_filter.mpr ⟨hev, by simpa using hsince⟩
    · rintro hlive max p ⟨ev, hev, hp⟩
      obtain ⟨hret, hsince⟩ := mem_filter.mp (mem_of_mem_take hev)
      exact hlive ev hret (by simpa using hsince) p hp
  · rw [← Nat.le_zero, ← h.tracked.forall_live_iff 0]
    simp only [jsonNames, ChangeLog.nxChangeLogToJson_ofEvents, mem_flatMap]
    constructor
    · exact fun hlive ev hev _ p hp => hlive p ⟨ev, hev, hp⟩
    · rintro hlive p ⟨ev, hev, hp⟩
      have hgen : ev.1 ∈ (ChangeLog.retained g.reg.log).map Prod.fst := mem_map_of_mem hev
      rw [h.tracked.retained_generations, mem_range'_1] at hgen
      exact hlive ev hev (by omega) p hp

/-- The slot `posix_shim`, bound to a component. -/
def posixBound : List TaskStep :=
  [.graph (.slotRegister (some 0) true), .graph (.componentRegister (some 0) true),
    .graph (.slotSwap (some 0) (some 0))]

/-- **A name in freed memory.** A task is created and destroyed, with `posix_shim` bound, and the
log is read. -/
theorem log_names_freed :
    let g := runFrom TaskGraph.step
      { reg := bootRegistry (fun _ => { name := some "posix_shim" })
          fun _ => { manifestId := some "posix_shim", instanceId := some "0" } }
      (posixBound ++ [.create true (some 1) true true fun _ => (true, true), .destroy 1])
    (∃ p ∈ g.readNames 0 256, ¬ g.Live p) ∧ ∃ p ∈ g.jsonNames, ¬ g.Live p := by
  decide +kernel

end TaskGraph

end Nonux.Framework
