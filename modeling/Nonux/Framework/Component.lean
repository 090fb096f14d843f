import Nonux.Framework.Registry
import Nonux.Lib.Prog

/-!
# The lifecycle of components (`framework/component.c`)

A component is initialised, enabled, paused, resumed, disabled and destroyed by six verbs. Each
checks the state the component is in, asks the hooks, calls the component's operation and only
then stores the new state. Pausing goes over the slots the component is bound to: it cuts them
off, drains their inboxes, and marks them done; if the component will not pause, they are put
back. Resuming clears them and flushes what was held for them.

## The model

The verbs are programs (`FwM`) over what they use: the registry, and calls that leave the
framework's hands, which are the hooks, the component's operations, and the draining and
flushing of queues. What such a call does is not part of a verb. `graphStep` is one account of
it: every call returns what the `Answers` say and leaves the graph alone, so that a verb
becomes a function on registries, and that function is computed here for each verb
(`run_nxComponentPause` and its siblings).
-/

namespace Nonux.Framework

open Nonux.Lib Function Registry
open Prog hiding pure

/-! ### What the verbs use -/

/-- The hook points of the lifecycle. -/
inductive LifecycleHook where
  | enable
  | pause
  | resume
  | disable
  deriving DecidableEq, Repr

/-- What a verb performs. -/
inductive FwOp where
  /-- Read the registry and the structures in it. -/
  | registry
  /-- A call of the registry. -/
  | reg (call : RegCall)
  /-- Run the hook chain of a point, with the state the component is to have. -/
  | hook (point : LifecycleHook) (c : CompId) (next : LifecycleState)
  /-- Call one of the component's operations. -/
  | op (o : CompOp) (c : CompId)
  /-- `nx_deadline_exceeded`, after the component's `pause_hook`. -/
  | deadlineExceeded (c : CompId)
  /-- Empty the inbox of a slot: `nx_ipc_dispatch` without a limit, or waiting for the
  dispatcher. -/
  | drain (s : SlotId)
  /-- `nx_ipc_flush_hold_queue`. -/
  | flush (s : SlotId)
  /-- `on_dep_swapped`, with the slot and its components before and after. -/
  | notify (c : CompId) (changed : SlotId) (old new : Option CompId) (stateLost : Bool)
  /-- Whether memory can be allocated. -/
  | calloc
  deriving DecidableEq

/-- What it gets back. -/
@[reducible] def FwOp.Res : FwOp → Type
  | .registry => Registry
  | .reg _ => Status
  | .hook _ _ _ => Bool
  | .op _ _ => ℤ
  | .deadlineExceeded _ => Bool
  | .drain _ => Unit
  | .flush _ => Unit
  | .notify _ _ _ _ _ => Unit
  | .calloc => Bool

/-- Programs of the framework. -/
abbrev FwM := Prog FwOp FwOp.Res

/-- `NX_OK`. -/
def nxOk : ℤ := 0

/-- No error is returned as success. -/
@[simp] theorem Err.code_ne_nxOk (e : Err) : e.code ≠ nxOk := by cases e <;> decide

/-- The number a status is returned as. -/
def Status.code : Status → ℤ
  | .ok () => nxOk
  | .error e => e.code

theorem Status.code_eq_nxOk_iff {st : Status} : st.code = nxOk ↔ st = .ok () := by
  cases st with
  | ok | error e => simp [Status.code]

/-- Read the registry. -/
def readRegistry : FwM Registry := Prog.perform FwOp.registry

/-- A call of the registry, for its return code. -/
def regCall (call : RegCall) : FwM ℤ := do
  let st : Status ← Prog.perform (FwOp.reg call)
  pure st.code

theorem all_regCall {P : FwOp → Prop} {call : RegCall} (h : P (.reg call)) : Prog.All P (regCall call) :=
  all_op h fun _ => all_pure _

/-- Call an operation of the component, if it has it. -/
def callOp (o : CompOp) (c : CompId) : FwM ℤ := do
  let r ← readRegistry
  if o ∈ (r.comp c).ops then Prog.perform (FwOp.op o c) else pure nxOk

/-- `nx_component_foreach_bound_slot`. -/
def foreachBoundSlot (c : CompId) (cb : SlotId → FwM Unit) : FwM Unit := do
  let r ← readRegistry
  Prog.forEach (fun s => do
    let r ← readRegistry
    if (r.slot s).active = some c then cb s else pure ()) r.nxGraphForeachSlot

/-! ### The verbs -/

/-- `nx_lifecycle_transition_legal`. -/
def nxLifecycleTransitionLegal : LifecycleState → LifecycleState → Bool
  | .uninit, next => next = .init ∨ next = .ready
  | .init, next => next = .ready
  | .ready, next => next = .active ∨ next = .destroyed
  | .active, next => next = .paused ∨ next = .ready
  | .paused, next => next = .active ∨ next = .ready
  | .destroyed, _ => false

/-- `dispatch_lifecycle_hook`. -/
def dispatchLifecycleHook (point : LifecycleHook) (c : CompId) (next : LifecycleState) : FwM ℤ := do
  let abort : Bool ← Prog.perform (FwOp.hook point c next)
  pure (if abort then Err.eabort.code else nxOk)

/-- `transition_from`. -/
def transitionFrom (c : CompId) (expectedFrom next : LifecycleState) : FwM ℤ := do
  let r ← readRegistry
  if (r.comp c).state ≠ expectedFrom then pure Err.estate.code
  else if nxLifecycleTransitionLegal expectedFrom next = false then pure Err.estate.code
  else regCall (.componentStateSet (some c) next)

/-- `nx_component_init`. -/
def nxComponentInit (c : CompId) : FwM ℤ := do
  let r ← readRegistry
  if (r.comp c).state ≠ .uninit then pure Err.estate.code
  else do
    let orc ← callOp .init c
    if orc ≠ nxOk then pure orc else transitionFrom c .uninit .ready

/-- `nx_component_enable`. -/
def nxComponentEnable (c : CompId) : FwM ℤ := do
  let r ← readRegistry
  if (r.comp c).state ≠ .ready then pure Err.estate.code
  else do
    let rc ← dispatchLifecycleHook .enable c .active
    if rc ≠ nxOk then pure rc
    else do
      let orc ← callOp .enable c
      if orc ≠ nxOk then pure orc else transitionFrom c .ready .active

/-- Store a pause state, whatever comes of it. -/
def setPause (s : SlotId) (st : SlotPauseState) : FwM Unit := do
  let _ ← regCall (.slotSetPauseState (some s) st)
  pure ()

/-- `slot_cutoff_cb`. -/
def slotCutoffCb (s : SlotId) : FwM Unit := setPause s .cutting

/-- `slot_drain_cb`. -/
def slotDrainCb (s : SlotId) : FwM Unit := do
  setPause s .draining
  Prog.perform (FwOp.drain s)

/-- `slot_done_cb`. -/
def slotDoneCb (s : SlotId) : FwM Unit := setPause s .done

/-- `slot_resume_cb`. -/
def slotResumeCb (s : SlotId) : FwM Unit := do
  setPause s .none
  Prog.perform (FwOp.flush s)

/-- `rollback_pause`. -/
def rollbackPause (c : CompId) : FwM Unit := foreachBoundSlot c slotResumeCb

/-- The call of `pause_hook` with its deadline, which is read only if the hook succeeds. -/
def callPauseHook (c : CompId) : FwM ℤ := do
  let r ← readRegistry
  if CompOp.pauseHook ∈ (r.comp c).ops then do
    let hrc : ℤ ← Prog.perform (FwOp.op .pauseHook c)
    if hrc = nxOk then do
      let exceeded : Bool ← Prog.perform (FwOp.deadlineExceeded c)
      pure (if exceeded then Err.edeadline.code else hrc)
    else pure hrc
  else pure nxOk

/-- `nx_component_pause`. -/
def nxComponentPause (c : CompId) : FwM ℤ := do
  let r ← readRegistry
  if (r.comp c).state ≠ .active then pure Err.estate.code
  else do
    let rc ← dispatchLifecycleHook .pause c .paused
    if rc ≠ nxOk then pure rc
    else do
      foreachBoundSlot c slotCutoffCb
      foreachBoundSlot c slotDrainCb
      let hrc ← callPauseHook c
      if hrc ≠ nxOk then do
        rollbackPause c
        pure hrc
      else do
        let orc ← callOp .pause c
        if orc ≠ nxOk then do
          rollbackPause c
          pure orc
        else do
          foreachBoundSlot c slotDoneCb
          transitionFrom c .active .paused

/-- `nx_component_resume`. -/
def nxComponentResume (c : CompId) : FwM ℤ := do
  let r ← readRegistry
  if (r.comp c).state ≠ .paused then pure Err.estate.code
  else do
    let rc ← dispatchLifecycleHook .resume c .active
    if rc ≠ nxOk then pure rc
    else do
      let orc ← callOp .resume c
      if orc ≠ nxOk then pure orc
      else do
        foreachBoundSlot c slotResumeCb
        transitionFrom c .paused .active

/-- `nx_component_disable`. It sets the state without asking the matrix. -/
def nxComponentDisable (c : CompId) : FwM ℤ := do
  let r ← readRegistry
  if (r.comp c).state ≠ .active ∧ (r.comp c).state ≠ .paused then pure Err.estate.code
  else do
    let rc ← dispatchLifecycleHook .disable c .ready
    if rc ≠ nxOk then pure rc
    else do
      let orc ← callOp .disable c
      if orc ≠ nxOk then pure orc else regCall (.componentStateSet (some c) .ready)

/-- `nx_component_destroy`. The operation returns nothing. -/
def nxComponentDestroy (c : CompId) : FwM ℤ := do
  let r ← readRegistry
  if (r.comp c).state ≠ .ready then pure Err.estate.code
  else if r.nxComponentIsBound (some c) then pure Err.ebusy.code
  else do
    let _ ← callOp .destroy c
    transitionFrom c .ready .destroyed

/-- A verb called with a pointer that may be null. -/
def orEinval (verb : CompId → FwM ℤ) : Option CompId → FwM ℤ
  | none => pure Err.einval.code
  | some c => verb c

/-! ### Running on a graph -/

/-- The answers that are to come to each question. -/
abbrev Answers := (o : FwOp) → ℕ → o.Res

/-- The answers that are left when a question has been asked. -/
def Answers.after (a : Answers) (o : FwOp) : Answers := update a o fun k => a o (k + 1)

theorem Answers.after_of_ne {a : Answers} {o o' : FwOp} (h : o ≠ o') :
    a.after o' o = a o := update_of_ne h _ _

/-- A registry, with the answers its surroundings are going to give. -/
structure World where
  reg : Registry
  answers : Answers

/-- Hooks let everything pass, and components agree to everything. -/
def agreeable : Answers
  | .registry, _ => bootRegistry (fun _ => {}) fun _ => {}
  | .reg _, _ => .ok ()
  | .hook _ _ _, _ => false
  | .op _ _, _ => nxOk
  | .deadlineExceeded _, _ => false
  | .drain _, _ => ()
  | .flush _, _ => ()
  | .notify _ _ _ _ _, _ => ()
  | .calloc, _ => true

/-- Ask the surroundings. -/
def World.ask (w : World) (o : FwOp) : World × o.Res :=
  ({ w with answers := w.answers.after o }, w.answers o 0)

/-- What an operation does when hooks and components answer as they like and leave the graph
alone. -/
def graphStep (w : World) : (o : FwOp) → World × o.Res
  | .registry => (w, w.reg)
  | .reg call => ({ w with reg := call.next w.reg }, (call.apply w.reg).2)
  | .hook point c next => w.ask (.hook point c next)
  | .op o c => w.ask (.op o c)
  | .deadlineExceeded c => w.ask (.deadlineExceeded c)
  | .drain _ => (w, ())
  | .flush _ => (w, ())
  | .notify _ _ _ _ _ => (w, ())
  | .calloc => w.ask .calloc

/-- What follows a reading of the registry goes on with the registry. -/
@[simp high] theorem run_readRegistry_bind {α : Type} (f : Registry → FwM α) (w : World) :
    Prog.run graphStep (readRegistry >>= f) w = Prog.run graphStep (f w.reg) w := rfl

@[simp] theorem run_regCall (call : RegCall) (w : World) :
    Prog.run graphStep (regCall call) w = ({ w with reg := call.next w.reg },
      (call.apply w.reg).2.code) := rfl

/-- The registry with the pause state of a slot stored. -/
def Registry.setPause (r : Registry) (s : SlotId) (st : SlotPauseState) : Registry :=
  (RegCall.slotSetPauseState (some s) st).next r

theorem Registry.setPause_of_hasSlot {r : Registry} {s : SlotId} (h : r.HasSlot s)
    (st : SlotPauseState) :
    r.setPause s st = r.modifySlot s fun sl => { sl with pauseState := st } := by
  obtain ⟨sn, hsn⟩ := Option.ne_none_iff_exists'.mp (slotNodeFor_ne_none_iff.mpr h)
  simp [setPause, RegCall.next, RegCall.apply, nxSlotSetPauseState, hsn]

theorem Registry.setPause_of_not_hasSlot {r : Registry} {s : SlotId} (h : ¬ r.HasSlot s)
    (st : SlotPauseState) : r.setPause s st = r := by
  simp [setPause, RegCall.next, RegCall.apply, nxSlotSetPauseState,
    slotNodeFor_eq_none_iff.mpr h]

/-- The registry with a pause state stored in those slots of a list that are bound to `c`. -/
def Registry.pauseIn (r : Registry) (l : List SlotId) (c : CompId) (st : SlotPauseState) : Registry :=
  { r with slot := fun s =>
      if s ∈ l ∧ (r.slot s).active = some c then { r.slot s with pauseState := st } else r.slot s }

theorem Registry.pauseIn_cons (r : Registry) (s : SlotId) (l : List SlotId) (c : CompId)
    (st : SlotPauseState) : r.pauseIn (s :: l) c st =
      (if (r.slot s).active = some c then r.modifySlot s fun sl => { sl with pauseState := st }
        else r).pauseIn l c st := by
  split_ifs with hc
  · refine Registry.ext (funext fun t => ?_) rfl rfl rfl rfl rfl rfl rfl rfl rfl rfl rfl
    by_cases hts : t = s
    · subst hts
      simp [pauseIn, modifySlot, hc]
    · simp [pauseIn, modifySlot, hts]
  · refine Registry.ext (funext fun t => ?_) rfl rfl rfl rfl rfl rfl rfl rfl rfl rfl rfl
    by_cases hts : t = s
    · subst hts
      simp [pauseIn, hc]
    · simp [pauseIn, hts]

/-- The registry with a pause state stored in all slots bound to `c`. -/
def Registry.pauseBound (r : Registry) (c : CompId) (st : SlotPauseState) : Registry :=
  r.pauseIn r.nxGraphForeachSlot c st

section PauseBound

variable (r : Registry) (c : CompId) (st : SlotPauseState)

theorem Registry.pauseBound_slot (s : SlotId) : (r.pauseBound c st).slot s =
    if r.HasSlot s ∧ (r.slot s).active = some c then { r.slot s with pauseState := st }
      else r.slot s := rfl

@[simp] theorem Registry.pauseBound_comp : (r.pauseBound c st).comp = r.comp := rfl

@[simp] theorem Registry.hasSlot_pauseBound (s : SlotId) :
    (r.pauseBound c st).HasSlot s ↔ r.HasSlot s := Iff.rfl

@[simp] theorem Registry.hasComp_pauseBound (c' : CompId) :
    (r.pauseBound c st).HasComp c' ↔ r.HasComp c' := Iff.rfl

@[simp] theorem Registry.pauseBound_active (s : SlotId) :
    ((r.pauseBound c st).slot s).active = (r.slot s).active := by
  rw [pauseBound_slot]
  split_ifs <;> rfl

/-- The last pause state stored is the one that stays. -/
@[simp] theorem Registry.pauseBound_pauseBound (st' : SlotPauseState) :
    (r.pauseBound c st).pauseBound c st' = r.pauseBound c st' := by
  refine Registry.ext (funext fun s => ?_) rfl rfl rfl rfl rfl rfl rfl rfl rfl rfl rfl
  simp only [pauseBound_slot, hasSlot_pauseBound]
  split_ifs <;> simp_all

end PauseBound

/-- A walk over the bound slots that stores the same pause state in each. -/
theorem run_foreachBoundSlot {cb : SlotId → FwM Unit} {st : SlotPauseState}
    (hcb : ∀ s w, Prog.run graphStep (cb s) w = ({ w with reg := w.reg.setPause s st }, ()))
    (c : CompId) (w : World) :
    Prog.run graphStep (foreachBoundSlot c cb) w = ({ w with reg := w.reg.pauseBound c st }, ()) := by
  simp only [foreachBoundSlot, run_readRegistry_bind]
  have hwalk : ∀ (l : List SlotId) (w : World), (∀ s ∈ l, w.reg.HasSlot s) →
      Prog.run graphStep (Prog.forEach (fun s => do
        let r ← readRegistry
        if (r.slot s).active = some c then cb s else pure ()) l) w =
          ({ w with reg := w.reg.pauseIn l c st }, ()) := by
    intro l
    induction l with
    | nil =>
      intro w _
      simp [Prog.forEach, pauseIn]
    | cons s l ih =>
      intro w hl
      rw [Prog.forEach, run_bind, run_readRegistry_bind, run_ite, hcb, pauseIn_cons,
        setPause_of_hasSlot (hl s List.mem_cons_self)]
      split_ifs
      · exact ih _ fun t ht => hl t (List.mem_cons_of_mem _ ht)
      · exact ih _ fun t ht => hl t (List.mem_cons_of_mem _ ht)
  exact hwalk _ w fun s hs => hs

/-- The registry with the state of a component set, if it is registered. -/
def Registry.setState (r : Registry) (c : CompId) (st : LifecycleState) : Registry :=
  (RegCall.componentStateSet (some c) st).next r

/-- What setting the state of a component returns. -/
def Registry.setStateCode (r : Registry) (c : CompId) : ℤ :=
  if r.HasComp c then nxOk else Err.enoent.code

theorem Registry.componentStateSet_code (r : Registry) (c : CompId) (st : LifecycleState) :
    (RegCall.apply r (.componentStateSet (some c) st)).2.code = r.setStateCode c := by
  by_cases hc : r.HasComp c
  · obtain ⟨cn, hcn⟩ := Option.ne_none_iff_exists'.mp
      (mt componentNodeFor_eq_none_iff.mp (not_not.mpr hc))
    simp [RegCall.apply, nxComponentStateSet, hcn, setStateCode, hc, Status.code]
  · have hcn := componentNodeFor_eq_none_iff.mpr hc
    simp [RegCall.apply, nxComponentStateSet, hcn, setStateCode, hc, Status.code]

section SetState

variable (r : Registry) (c : CompId) (st : LifecycleState)

/-- Nothing but the state changes, besides the generation and the log. -/
theorem Registry.setState_inv {I : Registry → Prop} (h : I r)
    (hset : r.HasComp c → ∀ gen log, I { r with
      comp := update r.comp c { r.comp c with state := st }, generation := gen, log }) :
    I (r.setState c st) := by
  refine RegCall.next_inv h fun r' he => ?_
  cases he with
  | componentStateSet hc gen log => exact hset hc gen log

@[simp] theorem Registry.setState_slot : (r.setState c st).slot = r.slot :=
  r.setState_inv c st (I := fun r' => r'.slot = r.slot) rfl fun _ _ _ => rfl

@[simp] theorem Registry.hasSlot_setState (s : SlotId) : (r.setState c st).HasSlot s ↔ r.HasSlot s :=
  r.setState_inv c st (I := fun r' => r'.HasSlot s ↔ r.HasSlot s) Iff.rfl fun _ _ _ => Iff.rfl

@[simp] theorem Registry.hasComp_setState (c' : CompId) : (r.setState c st).HasComp c' ↔ r.HasComp c' :=
  r.setState_inv c st (I := fun r' => r'.HasComp c' ↔ r.HasComp c') Iff.rfl fun _ _ _ => Iff.rfl

theorem Registry.setState_comp (hc : r.HasComp c) :
    (r.setState c st).comp = update r.comp c { r.comp c with state := st } := by
  obtain ⟨cn, hcn⟩ := Option.ne_none_iff_exists'.mp (mt componentNodeFor_eq_none_iff.mp (not_not.mpr hc))
  simp [setState, RegCall.next, RegCall.apply, nxComponentStateSet, hcn, modifyComp,
    bumpGen, emitEvent]

theorem Registry.setState_of_not_hasComp (hc : ¬ r.HasComp c) : r.setState c st = r := by
  have hcn := componentNodeFor_eq_none_iff.mpr hc
  simp [setState, RegCall.next, RegCall.apply, nxComponentStateSet, hcn]

end SetState

/-! ### What the surroundings answer -/

/-- The answer of an operation of a component, if it has it. -/
def Answers.askOp (a : Answers) (ops : List CompOp) (o : CompOp) (c : CompId) : Answers × ℤ :=
  if o ∈ ops then (a.after (.op o c), a (.op o c) 0) else (a, nxOk)

/-- The answers of the hooks and, if they let it pass, of the component. -/
def Answers.consult (a : Answers) (ops : List CompOp) (point : LifecycleHook)
    (next : LifecycleState) (o : CompOp) (c : CompId) : Answers × ℤ :=
  if a (.hook point c next) 0 = true then (a.after (.hook point c next), Err.eabort.code)
  else (a.after (.hook point c next)).askOp ops o c

theorem run_callOp (o : CompOp) (c : CompId) (w : World) :
    Prog.run graphStep (callOp o c) w =
      (⟨w.reg, (w.answers.askOp (w.reg.comp c).ops o c).1⟩,
        (w.answers.askOp (w.reg.comp c).ops o c).2) := by
  simp only [callOp, run_readRegistry_bind, run_ite, Answers.askOp]
  split_ifs <;> rfl

theorem run_dispatchLifecycleHook (point : LifecycleHook) (c : CompId) (next : LifecycleState)
    (w : World) : Prog.run graphStep (dispatchLifecycleHook point c next) w =
      (⟨w.reg, w.answers.after (.hook point c next)⟩,
        if w.answers (.hook point c next) 0 = true then Err.eabort.code else nxOk) := rfl

/-! ### The verbs on a graph -/

/-- Go on if those who were asked agree. -/
def World.settle (w : World) (asked : Answers × ℤ) (k : World → World × ℤ) : World × ℤ :=
  if asked.2 ≠ nxOk then (⟨w.reg, asked.1⟩, asked.2) else k ⟨w.reg, asked.1⟩

theorem World.settle_congr {w : World} {asked : Answers × ℤ} {k k' : World → World × ℤ}
    (h : ∀ a, k ⟨w.reg, a⟩ = k' ⟨w.reg, a⟩) : w.settle asked k = w.settle asked k' := by
  rw [World.settle, World.settle, h]

/-- Set the state of a component. -/
def World.setState (w : World) (c : CompId) (st : LifecycleState) : World × ℤ :=
  (⟨w.reg.setState c st, w.answers⟩, w.reg.setStateCode c)

theorem run_transitionFrom {w : World} {c : CompId} {expectedFrom next : LifecycleState}
    (h : (w.reg.comp c).state = expectedFrom)
    (hlegal : nxLifecycleTransitionLegal expectedFrom next = true) :
    Prog.run graphStep (transitionFrom c expectedFrom next) w = w.setState c next := by
  simp only [transitionFrom, run_readRegistry_bind, h, hlegal, ne_eq, not_true, if_false,
    reduceCtorEq, run_regCall, componentStateSet_code]
  rfl

/-- Ask the component and go on. -/
theorem run_callOp_then (o : CompOp) (c : CompId) (k : FwM ℤ) (w : World) :
    Prog.run graphStep (do
      let orc ← callOp o c
      if orc ≠ nxOk then pure orc else k) w =
        w.settle (w.answers.askOp (w.reg.comp c).ops o c) (Prog.run graphStep k) := by
  rw [run_bind, run_callOp, run_ite, run_pure]
  rfl

/-- Ask the hooks, ask the component and go on. -/
theorem run_consult (point : LifecycleHook) (next : LifecycleState) (o : CompOp) (c : CompId)
    (k : FwM ℤ) (w : World) : Prog.run graphStep (do
      let rc ← dispatchLifecycleHook point c next
      if rc ≠ nxOk then pure rc
      else do
        let orc ← callOp o c
        if orc ≠ nxOk then pure orc else k) w =
          w.settle (w.answers.consult (w.reg.comp c).ops point next o c) (Prog.run graphStep k) := by
  rw [run_bind, run_dispatchLifecycleHook, run_ite, run_pure, run_callOp_then, Answers.consult]
  by_cases habort : w.answers (.hook point c next) 0 = true
  · simp [habort, World.settle]
  · simp [habort, World.settle]

variable (c : CompId)

theorem run_nxComponentEnable (w : World) :
    Prog.run graphStep (nxComponentEnable c) w =
      if (w.reg.comp c).state ≠ .ready then (w, Err.estate.code)
      else w.settle (w.answers.consult (w.reg.comp c).ops .enable .active .enable c)
      fun w => w.setState c .active := by
  rw [nxComponentEnable, run_readRegistry_bind, run_ite, run_pure]
  split_ifs with hstate
  · rfl
  · rw [run_consult]
    exact World.settle_congr fun a => run_transitionFrom (not_not.mp hstate) rfl

theorem run_nxComponentResume (w : World) :
    Prog.run graphStep (nxComponentResume c) w =
      if (w.reg.comp c).state ≠ .paused then (w, Err.estate.code)
      else w.settle (w.answers.consult (w.reg.comp c).ops .resume .active .resume c) fun w =>
        World.setState ⟨w.reg.pauseBound c .none, w.answers⟩ c .active := by
  rw [nxComponentResume, run_readRegistry_bind, run_ite, run_pure]
  split_ifs with hstate
  · rfl
  · rw [run_consult]
    refine World.settle_congr fun a => ?_
    rw [run_bind, run_foreachBoundSlot fun _ _ => rfl]
    exact run_transitionFrom (not_not.mp hstate) rfl

theorem run_nxComponentDisable (w : World) :
    Prog.run graphStep (nxComponentDisable c) w =
      if (w.reg.comp c).state ≠ .active ∧ (w.reg.comp c).state ≠ .paused then (w, Err.estate.code)
      else w.settle (w.answers.consult (w.reg.comp c).ops .disable .ready .disable c)
      fun w => w.setState c .ready := by
  rw [nxComponentDisable, run_readRegistry_bind, run_ite, run_pure]
  split_ifs with hstate
  · rfl
  · rw [run_consult]
    refine World.settle_congr fun a => ?_
    rw [run_regCall, componentStateSet_code]
    rfl

/-- The operation `destroy` returns nothing that is looked at. -/
theorem run_nxComponentDestroy (w : World) :
    Prog.run graphStep (nxComponentDestroy c) w =
      if (w.reg.comp c).state ≠ .ready then (w, Err.estate.code)
      else if w.reg.nxComponentIsBound (some c) then (w, Err.ebusy.code)
      else World.setState ⟨w.reg, (w.answers.askOp (w.reg.comp c).ops .destroy c).1⟩ c .destroyed := by
  rw [nxComponentDestroy, run_readRegistry_bind, run_ite, run_ite, run_pure, run_pure]
  split_ifs with hstate hbound
  · rfl
  · rfl
  · rw [run_bind, run_callOp]
    exact run_transitionFrom (not_not.mp hstate) rfl

/-- How hooks and component can answer when they are asked to pause. -/
inductive PauseAnswer where
  /-- A hook aborts, before anything is done. -/
  | aborted
  /-- The component fails or is late, when its slots are cut off and drained. -/
  | refused (rc : ℤ)
  | agreed
  deriving DecidableEq, Repr

/-- The answer of `pause_hook`, with its deadline. -/
def Answers.askPauseHook (a : Answers) (ops : List CompOp) (c : CompId) : Answers × ℤ :=
  if CompOp.pauseHook ∈ ops then
    if a (.op .pauseHook c) 0 = nxOk then
      ((a.after (.op .pauseHook c)).after (.deadlineExceeded c),
        if a (.deadlineExceeded c) 0 = true then Err.edeadline.code else nxOk)
    else (a.after (.op .pauseHook c), a (.op .pauseHook c) 0)
  else (a, nxOk)

/-- All the answers to a pause. -/
def Answers.askPause (a : Answers) (ops : List CompOp) (c : CompId) : Answers × PauseAnswer :=
  let a₁ := a.after (.hook .pause c .paused)
  if a (.hook .pause c .paused) 0 = true then (a₁, .aborted)
  else
    let hooked := a₁.askPauseHook ops c
    if hooked.2 ≠ nxOk then (hooked.1, .refused hooked.2)
    else
      let paused := hooked.1.askOp ops .pause c
      if paused.2 ≠ nxOk then (paused.1, .refused paused.2) else (paused.1, .agreed)

theorem run_callPauseHook (w : World) :
    Prog.run graphStep (callPauseHook c) w =
      (⟨w.reg, (w.answers.askPauseHook (w.reg.comp c).ops c).1⟩,
        (w.answers.askPauseHook (w.reg.comp c).ops c).2) := by
  rw [callPauseHook, run_readRegistry_bind, Answers.askPauseHook, run_ite]
  by_cases hhas : CompOp.pauseHook ∈ (w.reg.comp c).ops
  · rw [if_pos hhas, if_pos hhas, run_perform_bind]
    change Prog.run graphStep (if w.answers (.op .pauseHook c) 0 = nxOk then _ else _) _ = _
    by_cases hok : w.answers (.op .pauseHook c) 0 = nxOk
    · have hdeadline : (w.answers.after (.op .pauseHook c)) (.deadlineExceeded c) 0 =
          w.answers (.deadlineExceeded c) 0 := congrFun (update_of_ne (by simp) _ _) 0
      rw [if_pos hok, if_pos hok, run_perform_bind, ← hdeadline, ← hok]
      rfl
    · rw [if_neg hok, if_neg hok]
      rfl
  · rw [if_neg hhas, if_neg hhas]
    rfl

/-- **Pausing**: if a hook aborts nothing is done; if the component refuses, the slots it is
bound to end with pause state `NONE`; and if it agrees, they end with `DONE`. -/
theorem run_nxComponentPause (w : World) :
    Prog.run graphStep (nxComponentPause c) w =
      if (w.reg.comp c).state ≠ .active then (w, Err.estate.code)
      else match w.answers.askPause (w.reg.comp c).ops c with
        | (a, .aborted) => (⟨w.reg, a⟩, Err.eabort.code)
        | (a, .refused rc) => (⟨w.reg.pauseBound c .none, a⟩, rc)
        | (a, .agreed) => World.setState ⟨w.reg.pauseBound c .done, a⟩ c .paused := by
  rw [nxComponentPause, run_readRegistry_bind, run_ite, run_pure]
  split_ifs with hstate
  · rfl
  · have hcut : ∀ w, Prog.run graphStep (foreachBoundSlot c slotCutoffCb) w =
        (⟨w.reg.pauseBound c .cutting, w.answers⟩, ()) := run_foreachBoundSlot (fun _ _ => rfl) c
    have hdrain : ∀ w, Prog.run graphStep (foreachBoundSlot c slotDrainCb) w =
        (⟨w.reg.pauseBound c .draining, w.answers⟩, ()) := run_foreachBoundSlot (fun _ _ => rfl) c
    have hdone : ∀ w, Prog.run graphStep (foreachBoundSlot c slotDoneCb) w =
        (⟨w.reg.pauseBound c .done, w.answers⟩, ()) := run_foreachBoundSlot (fun _ _ => rfl) c
    have hback : ∀ w, Prog.run graphStep (rollbackPause c) w =
        (⟨w.reg.pauseBound c .none, w.answers⟩, ()) := run_foreachBoundSlot (fun _ _ => rfl) c
    rw [run_bind, run_dispatchLifecycleHook, Answers.askPause]
    by_cases habort : w.answers (.hook .pause c .paused) 0 = true
    · simp [habort]
    · simp only [habort, ne_eq, not_true, if_false, Bool.false_eq_true, run_bind, hcut, hdrain,
        run_callPauseHook, pauseBound_pauseBound, pauseBound_comp, run_ite, hback, run_pure,
          run_callOp, hdone]
      split_ifs
      · exact run_transitionFrom (not_not.mp hstate) rfl
      · rfl
      · rfl

end Nonux.Framework
