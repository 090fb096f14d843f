import Nonux.Framework.Component
import Nonux.Lib.Kahn

/-!
# Bringing the framework up (`framework/bootstrap.c`)

A kernel is linked with a table of slots, each with the name of the component that is to be behind
it, and with descriptors of components, each with the slots it depends on. Bring-up registers the
slots, registers a component for every descriptor and binds it, and then goes over the components
again and again; one whose required dependencies are up is connected to them, initialised and, if it
is bound to a slot, enabled. A turn that brings up nothing ends it.

## The model

`nxFrameworkBootstrap` is a program of the framework that may return early (`BootM`). Slots and
components are at the addresses that are their positions in the two tables. The loop is given a
number of turns, and is not over when they are used up. The pointers that are stored in a
component's state are read by no one here. Starting the dispatcher's thread, which the kernel does
at the end, is one allocation.
-/

namespace Nonux.Framework

open Nonux.Lib

/-! ### What is linked in -/

/-- `struct nx_dep_descriptor`. -/
structure DepDescriptor where
  /-- The name of the slot. -/
  name : String
  required : Bool := true
  mode : ConnMode := .async
  stateful : Bool := false
  policy : PausePolicy := .queue
  deriving DecidableEq, Repr

/-- `struct nx_component_descriptor`. -/
structure ComponentDescriptor where
  name : String
  stateSize : ℕ := 1
  deps : List DepDescriptor := []
  ops : List CompOp := []
  deriving DecidableEq, Repr

/-- `struct nx_boot_slot`, with what its slot is initialised to. -/
structure BootSlot where
  name : String
  mutability : SlotMutability := .hot
  implName : Option String
  deriving DecidableEq, Repr

/-- What a kernel is linked with: `nx_boot_slots` and the section `nx_components`. -/
structure Composition where
  bootSlots : List BootSlot
  components : List ComponentDescriptor

namespace Composition

variable (k : Composition)

/-- The number of components. -/
abbrev size : ℕ := k.components.length

/-- The descriptor of a component. -/
def desc (i : Fin k.size) : ComponentDescriptor := k.components.get i

/-- The registry before bring-up. The slots are static, with nothing behind them, and a component is
as bring-up allocates it. -/
def boot : Registry :=
  bootRegistry
    (fun s => (k.bootSlots[s]?).elim {} fun b => { name := some b.name, mutability := b.mutability })
    (fun c => (k.components[c]?).elim {}
      fun d => { manifestId := some d.name, instanceId := some "0", ops := d.ops })

/-- `find_slot_for`. -/
def findSlotFor (d : ComponentDescriptor) : Option SlotId :=
  k.bootSlots.findIdx? fun b => decide (b.implName = some d.name)

/-- `deps_ready`. A component that is not one of ours is ready. -/
def depsReady (r : Registry) (visited : Fin k.size → Bool) (d : ComponentDescriptor) : Bool :=
  d.deps.all fun dep => !dep.required ||
    match r.nxSlotLookup (some dep.name) with
    | none => false
    | some target =>
      match (r.slot target).active with
      | none => false
      | some c => if h : c < k.size then visited ⟨c, h⟩ else true

end Composition

/-! ### Bring-up -/

/-- Programs that may return early. -/
abbrev BootM := ExceptT ℤ FwM

/-- `if (rc != NX_OK) return rc;`. -/
def orReturn (p : FwM ℤ) : BootM Unit := do
  let rc ← liftM p
  if rc ≠ nxOk then throw rc else pure ()

/-- An allocation that has to succeed. -/
def callocOrReturn : BootM Unit := do
  let ok : Bool ← liftM (Prog.perform FwOp.calloc : FwM Bool)
  if ok = false then throw Err.enomem.code else pure ()

/-- Register the slot at an address. A name that is taken is no failure. -/
def bootRegisterSlot (s : SlotId) : BootM Unit := do
  let node : Bool ← liftM (Prog.perform FwOp.calloc : FwM Bool)
  let rc ← liftM (regCall (.slotRegister (some s) node))
  if rc ≠ nxOk ∧ rc ≠ Err.eexist.code then throw rc else pure ()

/-- Allocate and register the component of a descriptor, and bind it. -/
def bootRegisterComponent (k : Composition) (i : Fin k.size) : BootM Unit := do
  callocOrReturn
  if 0 < (k.desc i).stateSize then callocOrReturn else pure ()
  let node : Bool ← liftM (Prog.perform FwOp.calloc : FwM Bool)
  orReturn (regCall (.componentRegister (some i) node))
  match k.findSlotFor (k.desc i) with
  | none => pure ()
  | some slot => orReturn (regCall (.slotSwap (some slot) (some i)))

/-- One dependency of `nx_resolve_deps`. -/
def resolveDep (selfSlot : Option SlotId) (dep : DepDescriptor) : BootM Unit := do
  let r ← liftM readRegistry
  match r.nxSlotLookup (some dep.name) with
  | none => if dep.required then throw Err.enoent.code else pure ()
  | some tgt => do
    let callocConn : Bool ← liftM (Prog.perform FwOp.calloc : FwM Bool)
    let callocNode : Bool ← liftM (Prog.perform FwOp.calloc : FwM Bool)
    orReturn (regCall (.connectionRegister selfSlot (some tgt) dep.mode dep.stateful dep.policy
      callocConn callocNode))

/-- `nx_resolve_deps`. Without state there is no place for the pointers. -/
def nxResolveDeps (d : ComponentDescriptor) (selfSlot : Option SlotId) : BootM Unit :=
  if d.stateSize = 0 then throw Err.einval.code
  else d.deps.foldlM (fun _ dep => resolveDep selfSlot dep) ()

/-- How far the loop has come. -/
structure BootWork (n : ℕ) where
  visited : Fin n → Bool := fun _ => false
  done : ℕ := 0
  progressed : Bool := false

/-- A component is up. -/
def BootWork.mark {n : ℕ} (w : BootWork n) (i : Fin n) : BootWork n :=
  { visited := Function.update w.visited i true, done := w.done + 1, progressed := true }

/-- Bring a component up. -/
def bootBringUp (k : Composition) (i : Fin k.size) : BootM Unit := do
  let selfSlot := k.findSlotFor (k.desc i)
  nxResolveDeps (k.desc i) selfSlot
  orReturn (nxComponentInit i)
  if selfSlot.isSome then orReturn (nxComponentEnable i) else pure ()

/-- One component of a turn. -/
def bootVisit (k : Composition) (w : BootWork k.size) (i : Fin k.size) : BootM (BootWork k.size) := do
  if w.visited i then pure w
  else do
    let r ← liftM readRegistry
    if k.depsReady r w.visited (k.desc i) = false then pure w
    else do
      bootBringUp k i
      pure (w.mark i)

/-- One turn. -/
def bootSweep (k : Composition) (w : BootWork k.size) : BootM (BootWork k.size) :=
  (List.finRange k.size).foldlM (bootVisit k) { w with progressed := false }

/-- The loop, for as many turns as it is given; it may not be over then. -/
def bootSweeps (k : Composition) : ℕ → BootWork k.size → BootM Bool
  | 0, w => pure (decide (k.size ≤ w.done))
  | turns + 1, w =>
    if w.done < k.size then do
      let w' ← bootSweep k w
      if w'.progressed = false then throw Err.eloop.code else bootSweeps k turns w'
    else pure true

/-- `nx_framework_bootstrap` up to its loop: what is allocated, registered and bound. -/
def bootWire (k : Composition) : BootM Unit := do
  (List.range k.bootSlots.length).foldlM (fun _ s => bootRegisterSlot s) ()
  if k.size = 0 then pure ()
  else do
    callocOrReturn
    (List.finRange k.size).foldlM (fun _ i => bootRegisterComponent k i) ()
    callocOrReturn

/-- `nx_framework_bootstrap`, for as many turns of its loop: whether it is over. -/
def bootAll (k : Composition) (hosted : Bool) (turns : ℕ) : BootM Bool := do
  bootWire k
  if k.size = 0 then pure true
  else do
    let finished ← bootSweeps k turns {}
    if finished ∧ ¬ hosted then callocOrReturn else pure ()
    pure finished

/-- The code that is returned, if it is over. -/
def bootCode : Except ℤ Bool → Option ℤ
  | .error rc => some rc
  | .ok true => some nxOk
  | .ok false => none

/-- `nx_framework_bootstrap`. It returns a code, or nothing if the loop is not over after the turns
it was given. -/
def nxFrameworkBootstrap (k : Composition) (hosted : Bool) (turns : ℕ) : FwM (Option ℤ) := do
  let res ← (bootAll k hosted turns).run
  pure (bootCode res)

end Nonux.Framework
