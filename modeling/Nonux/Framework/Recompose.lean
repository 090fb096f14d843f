import Nonux.Framework.Component
import Nonux.Framework.PauseOrder

/-!
# Recomposition (`framework/recompose.c`)

`nx_recompose` carries out a plan: it checks the plan, pauses the components behind the slots it
affects (`PauseOrder`), removes connections, puts new components in the slots, adds and retunes
connections, enables and resumes what is in the slots, and tells the dependents. Up to the pausing
an error is returned, and what was paused is resumed; from there on the outcome of no step is
looked at.

The model is a program over the operations of `Component`. `FwCall` has all the calls that change
the graph: those of the registry, the verbs of the lifecycle, and recompositions.
-/

namespace Nonux.Framework

open Nonux.Lib

/-- `struct recomp_plan`. A plan with a negative count has no changes. -/
structure RecompPlan where
  changes : List SlotChange
  connections : List ConnChange := []
  negativeCount : Bool := false
  deriving DecidableEq, Repr

/-! ### Checking -/

/-- The checks on one change. -/
def validateChange (r : Registry) (sc : SlotChange) : Option Err :=
  match sc.slot with
  | none => some .einval
  | some s =>
    if (r.slot s).mutability = .frozen then some .eperm
    else if sc.action = .replace then
      match sc.newComp with
      | none => some .einval
      | some n => if (r.comp n).state ≠ .ready then some .estate else none
    else none

/-- The first error of the changes. -/
def validate (r : Registry) (changes : List SlotChange) : Option Err :=
  changes.findSome? (validateChange r)

/-- The slots of the changes, which are not null in a plan that is valid. -/
def RecompPlan.changedSlots (plan : RecompPlan) : List SlotId := plan.changes.filterMap (·.slot)

/-! ### Pausing -/

/-- Resume what is behind a slot, if it is paused. -/
def resumeIfPaused (s : SlotId) : FwM Unit := do
  let r ← readRegistry
  match (r.slot s).active with
  | none => pure ()
  | some c =>
    if (r.comp c).state = .paused then do
      let _ ← nxComponentResume c
      pure ()
    else pure ()

/-- Pause what is behind the slots of the order. `before` has the slots that were dealt with, the
last first: they are resumed in this order if a pause fails. -/
def pauseSlots (before : List SlotId) : List SlotId → FwM ℤ
  | [] => pure nxOk
  | s :: rest => do
    let r ← readRegistry
    match (r.slot s).active with
    | none => pauseSlots (s :: before) rest
    | some c =>
      if (r.comp c).state ≠ .active then pauseSlots (s :: before) rest
      else do
        let rc ← nxComponentPause c
        if rc ≠ nxOk then do
          Prog.forEach resumeIfPaused before
          pure rc
        else pauseSlots (s :: before) rest

/-! ### Rewiring -/

/-- `conn_find_cb`, over all connections. -/
def connFind (r : Registry) (cc : ConnChange) : Option ConnId :=
  r.nxGraphForeachConnection.find? fun c =>
    decide ((r.conn c).fromSlot = cc.fromSlot ∧ some (r.conn c).toSlot = cc.toSlot)

/-- Do what `act` says with the connection a change is about, if there is one. -/
def withConnection (cc : ConnChange) (act : Registry → ConnId → RegCall) : FwM Unit := do
  let r ← readRegistry
  match connFind r cc with
  | none => pure ()
  | some c => do
    let _ ← regCall (act r c)
    pure ()

/-- Removing a connection. -/
def removeConnection (cc : ConnChange) : FwM Unit :=
  if cc.action = .remove then withConnection cc fun _ c => .connectionUnregister (some c) else pure ()

/-- Disable the component that was in a slot. -/
def disableOld (old : Option CompId) : FwM Unit := do
  let r ← readRegistry
  match old with
  | none => pure ()
  | some old =>
    if (r.comp old).state = .paused ∨ (r.comp old).state = .active then do
      let _ ← nxComponentDisable old
      pure ()
    else pure ()

/-- Destroy the component that was in a slot, if no slot is bound to it any more. -/
def destroyOld (old : Option CompId) : FwM Unit := do
  let r ← readRegistry
  match old with
  | none => pure ()
  | some old =>
    if (r.comp old).state = .ready ∧ r.nxComponentIsBound (some old) = false then do
      let _ ← nxComponentDestroy old
      pure ()
    else pure ()

/-- Putting a new component in a slot. -/
def swapSlot (change : SlotChange × Option CompId) : FwM Unit :=
  if change.1.action = .replace then do
    disableOld change.2
    let _ ← regCall (.slotSwap change.1.slot change.1.newComp)
    destroyOld change.2
  else pure ()

/-- Adding a connection, with what two allocations say, or retuning one. -/
def addConnection (cc : ConnChange) : FwM Unit :=
  match cc.action with
  | .add => do
    let callocConn : Bool ← Prog.perform FwOp.calloc
    let callocNode : Bool ← Prog.perform FwOp.calloc
    let _ ← regCall (.connectionRegister cc.fromSlot cc.toSlot cc.mode cc.stateful cc.policy
      callocConn callocNode)
    pure ()
  | .rewire => withConnection cc fun r c => .connectionRetune (some c) cc.mode (r.conn c).stateful
  | _ => pure ()

/-! ### Resuming and telling -/

/-- `slot_clear_pause`. -/
def slotClearPause (s : SlotId) : FwM Unit := do
  setPause s .none
  Prog.perform (FwOp.flush s)

/-- Enable or resume what is behind a slot. -/
def resumeSlot (s : SlotId) : FwM Unit := do
  let r ← readRegistry
  match (r.slot s).active with
  | none => pure ()
  | some c =>
    if (r.comp c).state = .ready then do
      let _ ← nxComponentEnable c
      slotClearPause s
    else if (r.comp c).state = .paused then do
      let _ ← nxComponentResume c
      pure ()
    else pure ()

/-- `dep_notify_cb`. -/
def depNotifyCb (change : SlotChange × Option CompId) (s : SlotId) (conn : ConnId) : FwM Unit := do
  let r ← readRegistry
  match (r.conn conn).fromSlot.bind fun dep => (r.slot dep).active with
  | none => pure ()
  | some c =>
    if CompOp.onDepSwapped ∈ (r.comp c).ops then
      Prog.perform (FwOp.notify c s change.2 change.1.newComp change.1.stateLost)
    else pure ()

/-- Tell the dependents of a slot that was given a new component. -/
def notifyDependents (change : SlotChange × Option CompId) : FwM Unit :=
  if change.1.action = .replace then
    match change.1.slot with
    | none => pure ()
    | some s => do
      let r ← readRegistry
      Prog.forEach (depNotifyCb change s) (r.nxSlotForeachDependent (some s))
  else pure ()

/-! ### The whole -/

/-- The phases after the pausing, whose outcomes are not looked at. -/
def rewireAndResume (plan : RecompPlan) (oldComps : List (Option CompId))
    (order : List SlotId) : FwM Unit := do
  Prog.forEach removeConnection plan.connections
  Prog.forEach swapSlot (plan.changes.zip oldComps)
  Prog.forEach addConnection plan.connections
  Prog.forEach resumeSlot order.reverse
  Prog.forEach notifyDependents (plan.changes.zip oldComps)

/-- `nx_recompose`. -/
def nxRecompose (plan : Option RecompPlan) : FwM ℤ :=
  match plan with
  | none => pure Err.einval.code
  | some plan =>
    if plan.negativeCount then pure Err.einval.code
    else do
      let r ← readRegistry
      match validate r plan.changes with
      | some e => pure e.code
      | none =>
        match buildPauseOrder r plan.changedSlots plan.connections with
        | .error e => pure e.code
        | .ok order => do
          let oldComps := plan.changes.map fun sc => sc.slot.bind fun s => (r.slot s).active
          let rc ← pauseSlots [] order
          if rc ≠ nxOk then pure rc
          else do
            rewireAndResume plan oldComps order
            pure nxOk

/-! ### All calls -/

/-- The verbs of the lifecycle. -/
inductive Verb where
  | init
  | enable
  | pause
  | resume
  | disable
  | destroy
  deriving DecidableEq, Repr

/-- The verb on a pointer that may be null. -/
def Verb.call : Verb → Option CompId → FwM ℤ
  | .init => orEinval nxComponentInit
  | .enable => orEinval nxComponentEnable
  | .pause => orEinval nxComponentPause
  | .resume => orEinval nxComponentResume
  | .disable => orEinval nxComponentDisable
  | .destroy => orEinval nxComponentDestroy

/-- A call that may change the graph. -/
inductive FwCall where
  | reg (call : RegCall)
  | verb (v : Verb) (c : Option CompId)
  | recompose (plan : Option RecompPlan)
  deriving DecidableEq

/-- The call as a program. -/
def FwCall.prog : FwCall → FwM ℤ
  | .reg call => regCall call
  | .verb v c => v.call c
  | .recompose plan => nxRecompose plan

/-- What a call does when hooks and components answer `a`. -/
def FwCall.run (r : Registry) (call : FwCall) (a : Answers) : World × ℤ :=
  Prog.run graphStep call.prog ⟨r, a⟩

/-- The graph after a call, with the answers given in it. -/
def FwCall.next (r : Registry) (call : FwCall × Answers) : Registry := (call.1.run r call.2).1.reg

/-- Calls with agreeable answers. -/
def agreed (calls : List FwCall) : List (FwCall × Answers) := calls.map fun call => (call, agreeable)

/-! ### The phases -/

/-- The components in the slots of the changes. -/
def RecompPlan.oldComps (r : Registry) (plan : RecompPlan) : List (Option CompId) :=
  plan.changes.map fun sc => sc.slot.bind fun s => (r.slot s).active

/-- The plan passes the checks, and there is an order. -/
def Ordered (r : Registry) (plan : RecompPlan) (order : List SlotId) : Prop :=
  plan.negativeCount = false ∧ validate r plan.changes = none ∧
    buildPauseOrder r plan.changedSlots plan.connections = .ok order

/-- The slots of a plan: those of its changes, and those that rewired connections lead to. -/
def RecompPlan.slots (plan : RecompPlan) : List SlotId :=
  plan.changedSlots ++ rewiredSlots plan.connections

theorem Ordered.mem_order {r : Registry} {plan : RecompPlan} {order : List SlotId}
    (h : Ordered r plan order) (s : SlotId) : s ∈ order ↔ s ∈ plan.slots := by
  rw [(buildPauseOrder_perm h.2.2).mem_iff, mem_affectedSlots, RecompPlan.slots]

theorem Ordered.nodup {r : Registry} {plan : RecompPlan} {order : List SlotId}
    (h : Ordered r plan order) (hchanges : plan.changedSlots.Nodup) : order.Nodup :=
  (buildPauseOrder_perm h.2.2).nodup_iff.mpr (appendNew_nodup hchanges _)

/-- **A recomposition fails at once and does nothing, or it pauses**; and if that succeeds it goes
on and succeeds. -/
theorem nxRecompose_cases (plan : Option RecompPlan) (w : World) :
    ((∃ e : Err, Prog.run graphStep (nxRecompose plan) w = (w, e.code)) ∧
      ∀ p order, plan = some p → ¬ Ordered w.reg p order) ∨
    ∃ p order, plan = some p ∧ Ordered w.reg p order ∧
      Prog.run graphStep (nxRecompose plan) w =
        if (Prog.run graphStep (pauseSlots [] order) w).2 ≠ nxOk then Prog.run graphStep
        (pauseSlots [] order) w
        else ((Prog.run graphStep (rewireAndResume p (p.oldComps w.reg) order)
          (Prog.run graphStep (pauseSlots [] order) w).1).1, nxOk) := by
  cases plan with
  | none => exact .inl ⟨⟨.einval, rfl⟩, by simp⟩
  | some p =>
    rw [nxRecompose, Prog.run_ite, Prog.run_pure, run_readRegistry_bind]
    by_cases hneg : p.negativeCount = true
    · rw [if_pos hneg]
      refine .inl ⟨⟨.einval, rfl⟩, ?_⟩
      rintro p' order ⟨⟩ ⟨hpos, -⟩
      rw [hneg] at hpos
      cases hpos
    · rw [if_neg hneg]
      cases hvalid : validate w.reg p.changes with
      | some e =>
        refine .inl ⟨⟨e, rfl⟩, ?_⟩
        rintro p' order ⟨⟩ ⟨-, hnone, -⟩
        rw [hvalid] at hnone
        cases hnone
      | none =>
        cases horder : buildPauseOrder w.reg p.changedSlots p.connections with
        | error e =>
          refine .inl ⟨⟨e, rfl⟩, ?_⟩
          rintro p' order ⟨⟩ ⟨-, -, hok⟩
          rw [horder] at hok
          cases hok
        | ok order =>
          refine .inr ⟨p, order, rfl, ⟨by simpa using hneg, hvalid, horder⟩, ?_⟩
          simp only [Prog.run_bind, Prog.run_ite, Prog.run_pure, RecompPlan.oldComps]

end Nonux.Framework
