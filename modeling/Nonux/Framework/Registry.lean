import Nonux.Framework.Abi
import Nonux.Lib.Loop

/-!
# The component graph (`framework/registry.c`)

Slots, components and the connections between slots. Callers own the slot and component
structures; the registry has a list of each, allocates the connections, and keeps every
connection in three lists: the list of all, the list of the slot it leads to and, if it comes
from a slot, the list of that one. Counts of the three lists are kept by hand.

## The model

A `Registry` has the memory of the structures, by address, and the lists. A call takes the
registry and returns the new one with its status, whether it fails or not; a pointer argument
that may be null is an `Option`, and each allocation has its outcome as an argument. Every
mutation ends with an event (`emitEvent`), after all its stores, so that what a subscriber does
in its callback is what a later call does.

## What is proved

* `RegCall.outcome`: a call fails and leaves the registry as it was, or it has its effect, which
  `Effect` lists for each call together with what the call checked. Invariants of the registry
  are proved over effects (`RegCall.next_inv`).
-/

namespace Nonux.Framework

open Nonux.Lib Function

/-! ### The structures -/

/-- The address of a `struct nx_slot`. -/
abbrev SlotId := ℕ

/-- The address of a `struct nx_component`. -/
abbrev CompId := ℕ

/-- The address of a `struct nx_connection`. -/
abbrev ConnId := ℕ

/-- `enum nx_lifecycle_state`. -/
inductive LifecycleState where
  | uninit
  | init
  | ready
  | active
  | paused
  | destroyed
  deriving DecidableEq, Repr

/-- `enum nx_conn_mode`. -/
inductive ConnMode where
  | async
  | sync
  deriving DecidableEq, Repr

/-- `enum nx_pause_policy`. -/
inductive PausePolicy where
  | queue
  | reject
  | redirect
  deriving DecidableEq, Repr

/-- `enum nx_slot_mutability`. -/
inductive SlotMutability where
  | hot
  | warm
  | frozen
  deriving DecidableEq, Repr

/-- `enum nx_slot_pause_state`. -/
inductive SlotPauseState where
  | none
  | cutting
  | draining
  | done
  deriving DecidableEq, Repr

/-- `struct nx_slot`. -/
structure Slot where
  name : Option String := none
  mutability : SlotMutability := .hot
  active : Option CompId := none
  fallback : Option SlotId := none
  pauseState : SlotPauseState := .none
  deriving DecidableEq, Repr

/-- The operations of `struct nx_component_ops`. -/
inductive CompOp where
  | init
  | enable
  | pauseHook
  | pause
  | resume
  | disable
  | destroy
  | handleMsg
  | onDepSwapped
  deriving DecidableEq, Repr

/-- `struct nx_component`. Of its descriptor, what matters is which operations it has; none if
there is no descriptor or no table of operations. -/
structure Component where
  manifestId : Option String := none
  instanceId : Option String := none
  state : LifecycleState := .uninit
  ops : List CompOp := []
  deriving DecidableEq, Repr

/-- `struct nx_connection`. -/
structure Connection where
  fromSlot : Option SlotId
  toSlot : SlotId
  mode : ConnMode
  stateful : Bool
  policy : PausePolicy
  deriving DecidableEq, Repr

/-- `struct slot_node`: a registered slot and the lists of its connections. -/
structure SlotNode where
  slot : SlotId
  incoming : List ConnId := []
  outgoing : List ConnId := []
  deriving DecidableEq, Repr

/-- The payload of `struct nx_graph_event`. -/
inductive GraphEvent where
  | slotCreated (name : Option String)
  | slotDestroyed (name : Option String)
  | slotSwapped (slotName oldManifest oldInstance newManifest newInstance : Option String)
  | componentRegistered (manifestId instanceId : Option String)
  | componentUnregistered (manifestId instanceId : Option String)
  | componentState (manifestId instanceId : Option String) (old new : LifecycleState)
  | connectionAdded (fromSlot toSlot : Option String) (mode : ConnMode) (stateful : Bool)
  | connectionRemoved (fromSlot toSlot : Option String) (mode : ConnMode) (stateful : Bool)
  | connectionRetuned (fromSlot toSlot : Option String) (mode : ConnMode) (stateful : Bool)
  deriving DecidableEq, Repr

/-- The registry, with the memory of the structures it refers to. `nextConn` is the address
the next connection gets, and the log has every event ever appended, oldest first. -/
@[ext]
structure Registry where
  slot : SlotId → Slot
  comp : CompId → Component
  conn : ConnId → Connection
  slots : List SlotNode := []
  components : List CompId := []
  connections : List ConnId := []
  slotCount : ℕ := 0
  componentCount : ℕ := 0
  connectionCount : ℕ := 0
  generation : ℕ := 0
  log : List (ℕ × GraphEvent) := []
  nextConn : ConnId := 0

/-- A status: `NX_OK` or an error code. -/
abbrev Status := Except Err Unit

namespace Registry

/-- Store to a slot structure. -/
def modifySlot (r : Registry) (s : SlotId) (f : Slot → Slot) : Registry :=
  { r with slot := update r.slot s (f (r.slot s)) }

/-- Store to a component structure. -/
def modifyComp (r : Registry) (c : CompId) (f : Component → Component) : Registry :=
  { r with comp := update r.comp c (f (r.comp c)) }

/-- Store to a connection. -/
def modifyConn (r : Registry) (c : ConnId) (f : Connection → Connection) : Registry :=
  { r with conn := update r.conn c (f (r.conn c)) }

/-- `bump_gen`. -/
def bumpGen (r : Registry) : Registry := { r with generation := r.generation + 1 }

/-- `emit_event`: the event is logged under the generation there is. -/
def emitEvent (r : Registry) (ev : GraphEvent) : Registry :=
  { r with log := r.log ++ [(r.generation, ev)] }

/-! ### Finding -/

/-- `slot_node_find`. A slot without a name is passed over. -/
def slotNodeFind (r : Registry) (name : Option String) : Option SlotNode :=
  r.slots.find? fun n => decide ((r.slot n.slot).name ≠ none ∧ (r.slot n.slot).name = name)

/-- `slot_node_for`. -/
def slotNodeFor (r : Registry) (s : Option SlotId) : Option SlotNode :=
  s.bind fun s => r.slots.find? fun n => decide (n.slot = s)

/-- `component_node_find`. A destroyed component is passed over. -/
def componentNodeFind (r : Registry) (manifestId instanceId : Option String) : Option CompId :=
  if manifestId = none ∨ instanceId = none then none
  else r.components.find? fun c => decide ((r.comp c).state ≠ .destroyed ∧
    (r.comp c).manifestId = manifestId ∧ (r.comp c).instanceId = instanceId)

/-- `component_node_for`. -/
def componentNodeFor (r : Registry) (c : Option CompId) : Option CompId :=
  c.bind fun c => r.components.find? fun c' => decide (c' = c)

/-- `nx_component_is_bound`. -/
def nxComponentIsBound (r : Registry) (c : Option CompId) : Bool :=
  match c with
  | none => false
  | some c => r.slots.any fun n => decide ((r.slot n.slot).active = some c)

/-- `nx_slot_lookup`. -/
def nxSlotLookup (r : Registry) (name : Option String) : Option SlotId :=
  (r.slotNodeFind name).map (·.slot)

/-- `nx_component_lookup`. -/
def nxComponentLookup (r : Registry) (manifestId instanceId : Option String) : Option CompId :=
  r.componentNodeFind manifestId instanceId

/-- The slots `nx_graph_foreach_slot` visits. -/
def nxGraphForeachSlot (r : Registry) : List SlotId := r.slots.map (·.slot)

/-- The components `nx_graph_foreach_component` visits. -/
def nxGraphForeachComponent (r : Registry) : List CompId := r.components

/-- The connections `nx_graph_foreach_connection` visits. -/
def nxGraphForeachConnection (r : Registry) : List ConnId := r.connections

/-- The connections `nx_slot_foreach_dependent` visits. -/
def nxSlotForeachDependent (r : Registry) (s : Option SlotId) : List ConnId :=
  ((r.slotNodeFor s).map (·.incoming)).getD []

/-- The connections `nx_slot_foreach_dependency` visits. -/
def nxSlotForeachDependency (r : Registry) (s : Option SlotId) : List ConnId :=
  ((r.slotNodeFor s).map (·.outgoing)).getD []

/-- `nx_slot_pause_state`. -/
def nxSlotPauseState (r : Registry) (s : Option SlotId) : SlotPauseState :=
  (s.map fun s => (r.slot s).pauseState).getD .none

/-! ### Slots -/

/-- `nx_slot_register`. The pause state and the fallback are reset, what the slot is bound to
is not. -/
def nxSlotRegister (r : Registry) (s : Option SlotId) (calloc : Bool) : Registry × Status :=
  match s with
  | none => (r, .error .einval)
  | some s =>
    if (r.slot s).name = none then (r, .error .einval)
    else if (r.slotNodeFind (r.slot s).name).isSome then (r, .error .eexist)
    else if calloc = false then (r, .error .enomem)
    else
      let r := r.modifySlot s fun sl => { sl with pauseState := .none, fallback := none }
      let r := r.bumpGen
      let r := { r with slots := { slot := s } :: r.slots, slotCount := r.slotCount + 1 }
      (r.emitEvent (.slotCreated (r.slot s).name), .ok ())

/-- `nx_slot_swap`, but for the hooks it notifies when all is done. -/
def nxSlotSwap (r : Registry) (s : Option SlotId) (newImpl : Option CompId) : Registry × Status :=
  match s, r.slotNodeFor s with
  | some s, some _ =>
    if newImpl.isSome ∧ r.componentNodeFor newImpl = none then (r, .error .enoent)
    else
      let oldImpl := (r.slot s).active
      let r := r.modifySlot s fun sl => { sl with active := newImpl }
      let r := r.bumpGen
      let manifest (c : Option CompId) := c.bind fun c => (r.comp c).manifestId
      let inst (c : Option CompId) := c.bind fun c => (r.comp c).instanceId
      (r.emitEvent (.slotSwapped (r.slot s).name (manifest oldImpl) (inst oldImpl)
        (manifest newImpl) (inst newImpl)), .ok ())
  | _, _ => (r, .error .enoent)

/-- `nx_slot_set_fallback`. It emits no event. -/
def nxSlotSetFallback (r : Registry) (s fallback : Option SlotId) : Registry × Status :=
  match s, r.slotNodeFor s with
  | some s, some _ =>
    if fallback = some s then (r, .error .einval)
    else if fallback.isSome ∧ (r.slotNodeFor fallback).isNone then (r, .error .enoent)
    else (r.modifySlot s fun sl => { sl with fallback }, .ok ())
  | _, _ => (r, .error .enoent)

/-- `nx_slot_set_pause_state`. It emits no event. -/
def nxSlotSetPauseState (r : Registry) (s : Option SlotId) (st : SlotPauseState) : Registry × Status :=
  match s, r.slotNodeFor s with
  | some s, some _ => (r.modifySlot s fun sl => { sl with pauseState := st }, .ok ())
  | _, _ => (r, .error .enoent)

/-- `nx_slot_unregister`. A slot with connections stays. -/
def nxSlotUnregister (r : Registry) (s : Option SlotId) : Registry × Status :=
  match s, r.slotNodeFor s with
  | some s, some sn =>
    if sn.incoming ≠ [] ∨ sn.outgoing ≠ [] then (r, .error .ebusy)
    else
      let r := { r with slots := r.slots.eraseP fun n => decide (n.slot = s), slotCount := r.slotCount - 1 }
      let r := r.bumpGen
      (r.emitEvent (.slotDestroyed (r.slot s).name), .ok ())
  | _, _ => (r, .error .enoent)

/-! ### Components -/

/-- `nx_component_register`. -/
def nxComponentRegister (r : Registry) (c : Option CompId) (calloc : Bool) : Registry × Status :=
  match c with
  | none => (r, .error .einval)
  | some c =>
    if (r.comp c).manifestId = none ∨ (r.comp c).instanceId = none then (r, .error .einval)
    else if (r.componentNodeFind (r.comp c).manifestId (r.comp c).instanceId).isSome then
      (r, .error .eexist)
    else if calloc = false then (r, .error .enomem)
    else
      let r := r.bumpGen
      let r := { r with components := c :: r.components, componentCount := r.componentCount + 1 }
      (r.emitEvent (.componentRegistered (r.comp c).manifestId (r.comp c).instanceId), .ok ())

/-- `nx_component_unregister`. A component that is bound stays. -/
def nxComponentUnregister (r : Registry) (c : Option CompId) : Registry × Status :=
  match c, r.componentNodeFor c with
  | some c, some _ =>
    if r.nxComponentIsBound (some c) then (r, .error .ebusy)
    else
      let r := { r with components := r.components.erase c, componentCount := r.componentCount - 1 }
      let r := r.bumpGen
      (r.emitEvent (.componentUnregistered (r.comp c).manifestId (r.comp c).instanceId), .ok ())
  | _, _ => (r, .error .enoent)

/-- `nx_component_state_set`. -/
def nxComponentStateSet (r : Registry) (c : Option CompId) (st : LifecycleState) : Registry × Status :=
  match c, r.componentNodeFor c with
  | some c, some _ =>
    let old := (r.comp c).state
    let r := r.modifyComp c fun co => { co with state := st }
    let r := r.bumpGen
    (r.emitEvent (.componentState (r.comp c).manifestId (r.comp c).instanceId old st), .ok ())
  | _, _ => (r, .error .enoent)

/-! ### Connections -/

/-- Rewrite the node of a slot, the first there is. -/
def updateNode (s : SlotId) (f : SlotNode → SlotNode) : List SlotNode → List SlotNode
  | [] => []
  | n :: ns => if n.slot = s then f n :: ns else n :: updateNode s f ns

/-- `slot_add_incoming`, for the node of the slot. -/
def slotAddIncoming (r : Registry) (s : SlotId) (c : ConnId) : Registry :=
  { r with slots := updateNode s (fun n => { n with incoming := c :: n.incoming }) r.slots }

/-- `slot_add_outgoing`. -/
def slotAddOutgoing (r : Registry) (s : SlotId) (c : ConnId) : Registry :=
  { r with slots := updateNode s (fun n => { n with outgoing := c :: n.outgoing }) r.slots }

/-- `slot_remove_incoming`. -/
def slotRemoveIncoming (r : Registry) (s : SlotId) (c : ConnId) : Registry :=
  { r with slots := updateNode s (fun n => { n with incoming := n.incoming.erase c }) r.slots }

/-- `slot_remove_outgoing`. -/
def slotRemoveOutgoing (r : Registry) (s : SlotId) (c : ConnId) : Registry :=
  { r with slots := updateNode s (fun n => { n with outgoing := n.outgoing.erase c }) r.slots }

/-- A slot's name, of a pointer that may be null. -/
def slotName (r : Registry) (s : Option SlotId) : Option String := s.bind fun s => (r.slot s).name

/-- `nx_connection_register`. Two allocations are made, for the connection and for its node. -/
def nxConnectionRegister (r : Registry) (fromSlot toSlot : Option SlotId) (mode : ConnMode)
    (stateful : Bool) (policy : PausePolicy) (callocConn callocNode : Bool) :
    Registry × Except Err ConnId :=
  match toSlot with
  | none => (r, .error .einval)
  | some dst =>
    if r.slotNodeFor (some dst) = none then (r, .error .enoent)
    else if fromSlot.isSome ∧ r.slotNodeFor fromSlot = none then (r, .error .enoent)
    else if callocConn = false ∨ callocNode = false then (r, .error .enomem)
    else
      let c := r.nextConn
      let r := { r with nextConn := c + 1 }
      let r := r.modifyConn c fun _ => { fromSlot, toSlot := dst, mode, stateful, policy }
      let r := r.bumpGen
      let r := { r with connections := c :: r.connections, connectionCount := r.connectionCount + 1 }
      let r := r.slotAddIncoming dst c
      let r := match fromSlot with
        | some s => r.slotAddOutgoing s c
        | none => r
      (r.emitEvent (.connectionAdded (r.slotName fromSlot) (r.slotName (some dst)) mode stateful), .ok c)

/-- `nx_connection_retune`. -/
def nxConnectionRetune (r : Registry) (c : Option ConnId) (mode : ConnMode) (stateful : Bool) :
    Registry × Status :=
  match c with
  | none => (r, .error .einval)
  | some c =>
    if c ∉ r.connections then (r, .error .enoent)
    else
      let r := r.modifyConn c fun cn => { cn with mode, stateful }
      let r := r.bumpGen
      (r.emitEvent (.connectionRetuned (r.slotName (r.conn c).fromSlot)
        (r.slotName (some (r.conn c).toSlot)) mode stateful), .ok ())

/-- `nx_connection_unregister`. -/
def nxConnectionUnregister (r : Registry) (c : Option ConnId) : Registry × Status :=
  match c with
  | none => (r, .error .einval)
  | some c =>
    if c ∉ r.connections then (r, .error .enoent)
    else
      let cn := r.conn c
      let r := { r with connections := r.connections.erase c }
      let r := if r.slotNodeFor (some cn.toSlot) = none then r else r.slotRemoveIncoming cn.toSlot c
      let r := match cn.fromSlot with
        | some s => if r.slotNodeFor (some s) = none then r else r.slotRemoveOutgoing s c
        | none => r
      let r := { r with connectionCount := r.connectionCount - 1 }
      let r := r.bumpGen
      (r.emitEvent (.connectionRemoved (r.slotName cn.fromSlot) (r.slotName (some cn.toSlot))
        cn.mode cn.stateful), .ok ())

end Registry

/-! ### Calls and runs -/

/-- A call of the registry. -/
inductive RegCall where
  | slotRegister (s : Option SlotId) (calloc : Bool)
  | slotSwap (s : Option SlotId) (newImpl : Option CompId)
  | slotSetFallback (s fallback : Option SlotId)
  | slotSetPauseState (s : Option SlotId) (st : SlotPauseState)
  | slotUnregister (s : Option SlotId)
  | componentRegister (c : Option CompId) (calloc : Bool)
  | componentUnregister (c : Option CompId)
  | componentStateSet (c : Option CompId) (st : LifecycleState)
  | connectionRegister (fromSlot toSlot : Option SlotId) (mode : ConnMode) (stateful : Bool)
      (policy : PausePolicy) (callocConn callocNode : Bool)
  | connectionRetune (c : Option ConnId) (mode : ConnMode) (stateful : Bool)
  | connectionUnregister (c : Option ConnId)
  deriving DecidableEq, Repr

/-- What the call does and returns. -/
def RegCall.apply (r : Registry) : RegCall → Registry × Status
  | .slotRegister s calloc => r.nxSlotRegister s calloc
  | .slotSwap s newImpl => r.nxSlotSwap s newImpl
  | .slotSetFallback s fallback => r.nxSlotSetFallback s fallback
  | .slotSetPauseState s st => r.nxSlotSetPauseState s st
  | .slotUnregister s => r.nxSlotUnregister s
  | .componentRegister c calloc => r.nxComponentRegister c calloc
  | .componentUnregister c => r.nxComponentUnregister c
  | .componentStateSet c st => r.nxComponentStateSet c st
  | .connectionRegister fromSlot toSlot mode stateful policy callocConn callocNode =>
    let res := r.nxConnectionRegister fromSlot toSlot mode stateful policy callocConn callocNode
    (res.1, res.2.map fun _ => ())
  | .connectionRetune c mode stateful => r.nxConnectionRetune c mode stateful
  | .connectionUnregister c => r.nxConnectionUnregister c

/-- The registry after a call. -/
def RegCall.next (r : Registry) (call : RegCall) : Registry := (call.apply r).1

/-- The registry at boot: nothing is registered, and the structures are as their owners made
them. -/
def bootRegistry (slot : SlotId → Slot) (comp : CompId → Component) : Registry :=
  { slot, comp, conn := fun _ => ⟨none, 0, .async, false, .queue⟩ }

/-! ### What each call does -/

/-- The slot is in the registry's list. -/
def Registry.HasSlot (r : Registry) (s : SlotId) : Prop := s ∈ r.nxGraphForeachSlot

/-- The component is in the registry's list. -/
def Registry.HasComp (r : Registry) (c : CompId) : Prop := c ∈ r.nxGraphForeachComponent

instance (r : Registry) (s : SlotId) : Decidable (r.HasSlot s) :=
  inferInstanceAs (Decidable (s ∈ r.slots.map _))

instance (r : Registry) (c : CompId) : Decidable (r.HasComp c) :=
  inferInstanceAs (Decidable (c ∈ r.components))

namespace Registry

variable {r : Registry} {s : SlotId}

theorem slotNodeFor_some {sn : SlotNode} (h : r.slotNodeFor (some s) = some sn) :
    sn ∈ r.slots ∧ sn.slot = s :=
  ⟨List.mem_of_find?_eq_some h, by simpa using List.find?_some h⟩

theorem slotNodeFor_eq_none_iff : r.slotNodeFor (some s) = none ↔ ¬ r.HasSlot s := by
  simp only [slotNodeFor, Option.bind_some, List.find?_eq_none, decide_eq_true_eq, HasSlot,
    nxGraphForeachSlot, List.mem_map, not_exists, not_and]

theorem slotNodeFor_ne_none_iff : r.slotNodeFor (some s) ≠ none ↔ r.HasSlot s := by
  rw [ne_eq, slotNodeFor_eq_none_iff, not_not]

theorem hasSlot_of_slotNodeFor {sn : SlotNode} (h : r.slotNodeFor (some s) = some sn) :
    r.HasSlot s := slotNodeFor_ne_none_iff.mp (by simp [h])

theorem componentNodeFor_eq_none_iff {c : CompId} :
    r.componentNodeFor (some c) = none ↔ ¬ r.HasComp c := by
  simp only [componentNodeFor, Option.bind_some, List.find?_eq_none, decide_eq_true_eq, HasComp,
    nxGraphForeachComponent]
  exact ⟨fun h hc => h c hc rfl, fun h c' hc' heq => h (heq ▸ hc')⟩

theorem hasComp_of_componentNodeFor {c c' : CompId} (h : r.componentNodeFor (some c) = some c') :
    r.HasComp c := by
  by_contra hno
  rw [componentNodeFor_eq_none_iff.mpr hno] at h
  cases h

theorem nxComponentIsBound_eq_false_iff {c : CompId} :
    r.nxComponentIsBound (some c) = false ↔ ∀ n ∈ r.slots, (r.slot n.slot).active ≠ some c := by
  simp [nxComponentIsBound]

theorem updateNode_of_not_mem {f : SlotNode → SlotNode} {l : List SlotNode} (h : s ∉ l.map (·.slot)) :
    updateNode s f l = l := by
  induction l with
  | nil => rfl
  | cons n l ih =>
    rw [List.map_cons, List.mem_cons, not_or] at h
    rw [updateNode, if_neg (fun heq => h.1 heq.symm), ih h.2]

end Registry

/-- What a call that succeeds does. The generation and the log move along, except where
nothing is emitted. -/
inductive Effect (r : Registry) : RegCall → Registry → Prop
  | slotRegister {s : SlotId} (hname : (r.slot s).name ≠ none)
      (hnew : ∀ n ∈ r.slots, (r.slot n.slot).name ≠ (r.slot s).name) (gen : ℕ)
      (log : List (ℕ × GraphEvent)) : Effect r (.slotRegister (some s) true)
        { r with
          slot := update r.slot s { r.slot s with pauseState := .none, fallback := none }
          slots := { slot := s } :: r.slots, slotCount := r.slotCount + 1, generation := gen, log }
  | slotSwap {s : SlotId} {newImpl : Option CompId} (hs : r.HasSlot s)
      (hnew : ∀ c, newImpl = some c → r.HasComp c) (gen : ℕ) (log : List (ℕ × GraphEvent)) :
      Effect r (.slotSwap (some s) newImpl)
        { r with slot := update r.slot s { r.slot s with active := newImpl }, generation := gen, log }
  | slotSetFallback {s : SlotId} {fallback : Option SlotId} (hs : r.HasSlot s) (hne : fallback ≠ some s)
      (hfb : ∀ t, fallback = some t → r.HasSlot t) :
      Effect r (.slotSetFallback (some s) fallback)
        { r with slot := update r.slot s { r.slot s with fallback } }
  | slotSetPauseState {s : SlotId} {st : SlotPauseState} (hs : r.HasSlot s) :
      Effect r (.slotSetPauseState (some s) st)
        { r with slot := update r.slot s { r.slot s with pauseState := st } }
  | slotUnregister {s : SlotId} {sn : SlotNode} (hsn : r.slotNodeFor (some s) = some sn)
      (hin : sn.incoming = []) (hout : sn.outgoing = []) (gen : ℕ) (log : List (ℕ × GraphEvent)) :
      Effect r (.slotUnregister (some s))
        { r with
          slots := r.slots.eraseP fun n => decide (n.slot = s)
          slotCount := r.slotCount - 1, generation := gen, log }
  | componentRegister {c : CompId}
      (hname : (r.comp c).manifestId ≠ none ∧ (r.comp c).instanceId ≠ none)
      (hnew : ∀ c' ∈ r.components, (r.comp c').state ≠ .destroyed →
        (r.comp c').manifestId = (r.comp c).manifestId → (r.comp c').instanceId ≠ (r.comp c).instanceId)
      (gen : ℕ) (log : List (ℕ × GraphEvent)) :
      Effect r (.componentRegister (some c) true)
        { r with
          components := c :: r.components, componentCount := r.componentCount + 1,
          generation := gen, log }
  | componentUnregister {c : CompId} (hc : r.HasComp c)
      (hfree : ∀ n ∈ r.slots, (r.slot n.slot).active ≠ some c) (gen : ℕ)
      (log : List (ℕ × GraphEvent)) : Effect r (.componentUnregister (some c))
        { r with
          components := r.components.erase c, componentCount := r.componentCount - 1,
          generation := gen, log }
  | componentStateSet {c : CompId} {st : LifecycleState} (hc : r.HasComp c) (gen : ℕ)
      (log : List (ℕ × GraphEvent)) : Effect r (.componentStateSet (some c) st)
        { r with comp := update r.comp c { r.comp c with state := st }, generation := gen, log }
  | connectionRegister {fromSlot : Option SlotId} {dst : SlotId} {mode : ConnMode} {stateful : Bool}
      {policy : PausePolicy} (hto : r.HasSlot dst)
      (hfrom : ∀ s, fromSlot = some s → r.HasSlot s) (gen : ℕ) (log : List (ℕ × GraphEvent)) :
      Effect r (.connectionRegister fromSlot (some dst) mode stateful policy true true)
        { r with
          conn := update r.conn r.nextConn ⟨fromSlot, dst, mode, stateful, policy⟩
          connections := r.nextConn :: r.connections, connectionCount := r.connectionCount + 1
          slots := fromSlot.elim id
            (fun s => Registry.updateNode s fun n => { n with outgoing := r.nextConn :: n.outgoing })
            (Registry.updateNode dst (fun n => { n with incoming := r.nextConn :: n.incoming }) r.slots)
          nextConn := r.nextConn + 1, generation := gen, log }
  | connectionRetune {c : ConnId} {mode : ConnMode} {stateful : Bool} (hc : c ∈ r.connections) (gen : ℕ)
      (log : List (ℕ × GraphEvent)) :
      Effect r (.connectionRetune (some c) mode stateful)
        { r with conn := update r.conn c { r.conn c with mode, stateful }, generation := gen, log }
  | connectionUnregister {c : ConnId} (hc : c ∈ r.connections) (gen : ℕ) (log : List (ℕ × GraphEvent)) :
      Effect r (.connectionUnregister (some c))
        { r with
          connections := r.connections.erase c, connectionCount := r.connectionCount - 1
          slots := (r.conn c).fromSlot.elim id
            (fun s => Registry.updateNode s fun n => { n with outgoing := n.outgoing.erase c })
            (Registry.updateNode (r.conn c).toSlot
              (fun n => { n with incoming := n.incoming.erase c }) r.slots)
          generation := gen, log }

/-- A call fails and changes nothing, or it succeeds with its effect. -/
def Outcome (r : Registry) (call : RegCall) (res : Registry × Status) : Prop :=
  (∃ e, res = (r, .error e)) ∨ (res.2 = .ok () ∧ Effect r call res.1)

variable {r : Registry} {call : RegCall}

theorem Outcome.error (e : Err) : Outcome r call (r, .error e) := .inl ⟨e, rfl⟩

namespace Registry

theorem nxSlotRegister_outcome (r : Registry) (s : Option SlotId) (calloc : Bool) :
    Outcome r (.slotRegister s calloc) (r.nxSlotRegister s calloc) := by
  cases s with
  | none => exact .error _
  | some s =>
    simp only [nxSlotRegister]
    split_ifs with hname hfound hcalloc
    · exact .error _
    · exact .error _
    · exact .error _
    · obtain rfl : calloc = true := by simpa using hcalloc
      refine .inr ⟨rfl, .slotRegister hname (fun n hn heq => hfound ?_) _ _⟩
      rw [slotNodeFind, List.find?_isSome]
      exact ⟨n, hn, by simpa [heq] using hname⟩

theorem nxSlotSwap_outcome (r : Registry) (s : Option SlotId) (newImpl : Option CompId) :
    Outcome r (.slotSwap s newImpl) (r.nxSlotSwap s newImpl) := by
  unfold nxSlotSwap
  split
  · next s sn hsn =>
    split_ifs with hnone
    · exact .error _
    · refine .inr ⟨rfl, .slotSwap (hasSlot_of_slotNodeFor hsn) (fun c hc => ?_) _ _⟩
      by_contra hno
      subst hc
      exact hnone ⟨rfl, componentNodeFor_eq_none_iff.mpr hno⟩
  · exact .error _

theorem nxSlotSetFallback_outcome (r : Registry) (s fallback : Option SlotId) :
    Outcome r (.slotSetFallback s fallback) (r.nxSlotSetFallback s fallback) := by
  unfold nxSlotSetFallback
  split
  · next s sn hsn =>
    split_ifs with hself hnone
    · exact .error _
    · exact .error _
    · refine .inr ⟨rfl, .slotSetFallback (hasSlot_of_slotNodeFor hsn) hself fun t ht => ?_⟩
      by_contra hno
      subst ht
      exact hnone ⟨rfl, by rw [slotNodeFor_eq_none_iff.mpr hno]; rfl⟩
  · exact .error _

theorem nxSlotSetPauseState_outcome (r : Registry) (s : Option SlotId) (st : SlotPauseState) :
    Outcome r (.slotSetPauseState s st) (r.nxSlotSetPauseState s st) := by
  unfold nxSlotSetPauseState
  split
  · next s sn hsn =>
    exact .inr ⟨rfl, .slotSetPauseState (hasSlot_of_slotNodeFor hsn)⟩
  · exact .error _

theorem nxSlotUnregister_outcome (r : Registry) (s : Option SlotId) :
    Outcome r (.slotUnregister s) (r.nxSlotUnregister s) := by
  unfold nxSlotUnregister
  split
  · next s sn hsn =>
    split_ifs with hedges
    · exact .error _
    · rw [not_or, not_not, not_not] at hedges
      exact .inr ⟨rfl, .slotUnregister hsn hedges.1 hedges.2 _ _⟩
  · exact .error _

theorem nxComponentRegister_outcome (r : Registry) (c : Option CompId) (calloc : Bool) :
    Outcome r (.componentRegister c calloc) (r.nxComponentRegister c calloc) := by
  cases c with
  | none => exact .error _
  | some c =>
    simp only [nxComponentRegister]
    split_ifs with hname hfound hcalloc
    · exact .error _
    · exact .error _
    · exact .error _
    · obtain rfl : calloc = true := by simpa using hcalloc
      refine .inr ⟨rfl, .componentRegister (not_or.mp hname) (fun c' hc' hst hm hi => hfound ?_) _ _⟩
      rw [componentNodeFind, if_neg hname, List.find?_isSome]
      exact ⟨c', hc', by simp [hst, hm, hi]⟩

theorem nxComponentUnregister_outcome (r : Registry) (c : Option CompId) :
    Outcome r (.componentUnregister c) (r.nxComponentUnregister c) := by
  unfold nxComponentUnregister
  split
  · next c cn hcn =>
    split_ifs with hbound
    · exact .error _
    · rw [Bool.not_eq_true, nxComponentIsBound_eq_false_iff] at hbound
      exact .inr ⟨rfl, .componentUnregister (hasComp_of_componentNodeFor hcn) hbound _ _⟩
  · exact .error _

theorem nxComponentStateSet_outcome (r : Registry) (c : Option CompId) (st : LifecycleState) :
    Outcome r (.componentStateSet c st) (r.nxComponentStateSet c st) := by
  unfold nxComponentStateSet
  split
  · next c cn hcn =>
    exact .inr ⟨rfl, .componentStateSet (hasComp_of_componentNodeFor hcn) _ _⟩
  · exact .error _

theorem nxConnectionRegister_outcome (r : Registry) (fromSlot toSlot : Option SlotId)
    (mode : ConnMode) (stateful : Bool) (policy : PausePolicy) (callocConn callocNode : Bool) :
    Outcome r (.connectionRegister fromSlot toSlot mode stateful policy callocConn callocNode)
      (RegCall.apply r (.connectionRegister fromSlot toSlot mode stateful policy callocConn
        callocNode)) := by
  cases toSlot with
  | none => exact .error _
  | some dst =>
    simp only [RegCall.apply, nxConnectionRegister]
    split_ifs with hto hfrom hcalloc
    · exact .error _
    · exact .error _
    · exact .error _
    · obtain ⟨rfl, rfl⟩ : callocConn = true ∧ callocNode = true := by simpa using hcalloc
      refine .inr ⟨rfl, ?_⟩
      have hfrom' : ∀ s, fromSlot = some s → r.HasSlot s := by
        intro s hs
        by_contra hno
        subst hs
        exact hfrom ⟨rfl, slotNodeFor_eq_none_iff.mpr hno⟩
      cases fromSlot with
      | none | some s => exact .connectionRegister (slotNodeFor_ne_none_iff.mp hto) hfrom' _ _

theorem nxConnectionRetune_outcome (r : Registry) (c : Option ConnId) (mode : ConnMode)
    (stateful : Bool) :
    Outcome r (.connectionRetune c mode stateful) (r.nxConnectionRetune c mode stateful) := by
  cases c with
  | none => exact .error _
  | some c =>
    simp only [nxConnectionRetune]
    split_ifs with hc
    · exact .inr ⟨rfl, .connectionRetune hc _ _⟩
    · exact .error _

/-- Removing from the list of a slot that is not there changes nothing. -/
theorem slotRemoveIncoming_if (r : Registry) (s : SlotId) (c : ConnId) :
    (if r.slotNodeFor (some s) = none then r else r.slotRemoveIncoming s c) =
      r.slotRemoveIncoming s c := by
  split_ifs with hnone
  · rw [slotRemoveIncoming, updateNode_of_not_mem (slotNodeFor_eq_none_iff.mp hnone)]
  · rfl

@[inherit_doc slotRemoveIncoming_if]
theorem slotRemoveOutgoing_if (r : Registry) (s : SlotId) (c : ConnId) :
    (if r.slotNodeFor (some s) = none then r else r.slotRemoveOutgoing s c) =
      r.slotRemoveOutgoing s c := by
  split_ifs with hnone
  · rw [slotRemoveOutgoing, updateNode_of_not_mem (slotNodeFor_eq_none_iff.mp hnone)]
  · rfl

theorem nxConnectionUnregister_outcome (r : Registry) (c : Option ConnId) :
    Outcome r (.connectionUnregister c) (r.nxConnectionUnregister c) := by
  cases c with
  | none => exact .error _
  | some c =>
    by_cases hc : c ∈ r.connections
    · have heffect := fun gen log => Effect.connectionUnregister hc gen log
      simp only [nxConnectionUnregister, hc, not_true, if_false, slotRemoveIncoming_if,
        slotRemoveOutgoing_if]
      refine .inr ⟨rfl, ?_⟩
      cases hfrom : (r.conn c).fromSlot with
      | none | some s =>
        rw [hfrom] at heffect
        exact heffect _ _
    · simp only [nxConnectionUnregister, hc, not_false_iff, if_true]
      exact .error _

end Registry

/-- **A call fails and changes nothing, or it has its effect.** -/
theorem RegCall.outcome (r : Registry) (call : RegCall) : Outcome r call (call.apply r) := by
  cases call with
  | slotRegister s calloc => exact r.nxSlotRegister_outcome s calloc
  | slotSwap s newImpl => exact r.nxSlotSwap_outcome s newImpl
  | slotSetFallback s fallback => exact r.nxSlotSetFallback_outcome s fallback
  | slotSetPauseState s st => exact r.nxSlotSetPauseState_outcome s st
  | slotUnregister s => exact r.nxSlotUnregister_outcome s
  | componentRegister c calloc => exact r.nxComponentRegister_outcome c calloc
  | componentUnregister c => exact r.nxComponentUnregister_outcome c
  | componentStateSet c st => exact r.nxComponentStateSet_outcome c st
  | connectionRegister fromSlot toSlot mode stateful policy callocConn callocNode =>
    exact r.nxConnectionRegister_outcome fromSlot toSlot mode stateful policy callocConn callocNode
  | connectionRetune c mode stateful => exact r.nxConnectionRetune_outcome c mode stateful
  | connectionUnregister c => exact r.nxConnectionUnregister_outcome c

/-- A call that fails leaves the registry as it was. -/
theorem RegCall.apply_error {e : Err} (h : (call.apply r).2 = .error e) : call.next r = r := by
  rcases call.outcome r with ⟨e', heq⟩ | ⟨hok, -⟩
  · rw [RegCall.next, heq]
  · rw [hok] at h
    cases h

/-- A call that succeeds has its effect. -/
theorem RegCall.effect_of_ok (h : (call.apply r).2 = .ok ()) : Effect r call (call.next r) := by
  rcases call.outcome r with ⟨e, heq⟩ | ⟨-, heffect⟩
  · rw [heq] at h
    cases h
  · exact heffect

/-- The invariant rule: what every effect keeps, every call keeps. -/
theorem RegCall.next_inv {I : Registry → Prop} (h : I r) (heff : ∀ r', Effect r call r' → I r') :
    I (call.next r) := by
  rcases call.outcome r with ⟨e, heq⟩ | ⟨-, heffect⟩
  · rw [RegCall.next, heq]
    exact h
  · exact heff _ heffect

end Nonux.Framework
