import Nonux.Framework.Recompose

/-!
# The list of components

`nx_component_register` finds out whether a component is registered by its name, and a destroyed
component is not found by name. So a component that was destroyed and is still in the list can be
registered again; it is in the list twice then, and to unregister it takes one of the two away.

No call besides `nx_component_register` and `nx_component_unregister` changes the list
(`recompOps_keepsMembers`): the verbs and recompositions change the state of components, bindings
and connections, never what is registered. Hence `registered_once_iff`.
-/

namespace Nonux.Framework

open Nonux.Lib

/-! ### What the programs of the framework leave alone -/

/-- The operation registers and unregisters no slot and no component, and sets no fallback. -/
def FwOp.KeepsMembers : FwOp → Prop
  | .reg (.slotRegister _ _) | .reg (.slotUnregister _) | .reg (.slotSetFallback _ _)
  | .reg (.componentRegister _ _) | .reg (.componentUnregister _) => False
  | _ => True

/-- What a verb does: it sets states and pause states. -/
def FwOp.OfVerb : FwOp → Prop
  | .reg (.componentStateSet _ _) | .reg (.slotSetPauseState _ _) => True
  | .reg _ | .notify _ _ _ _ _ => False
  | _ => True

/-- What all verbs may perform. The operations that initialise and enable a component are for two of
them. -/
structure VerbOps (P : FwOp → Prop) : Prop where
  registry : P .registry
  hook : ∀ point c next, P (.hook point c next)
  op : ∀ o c, o ≠ .init → o ≠ .enable → P (.op o c)
  deadlineExceeded : ∀ c, P (.deadlineExceeded c)
  drain : ∀ s, P (.drain s)
  flush : ∀ s, P (.flush s)
  stateSet : ∀ c st, P (.reg (.componentStateSet (some c) st))
  setPauseState : ∀ s st, P (.reg (.slotSetPauseState (some s) st))

/-- What a recomposition may perform besides. -/
structure RecompOps (P : FwOp → Prop) : Prop extends VerbOps P where
  slotSwap : ∀ s c, P (.reg (.slotSwap s c))
  register : ∀ src dst mode stateful policy callocConn callocNode,
    P (.reg (.connectionRegister src dst mode stateful policy callocConn callocNode))
  unregister : ∀ c, P (.reg (.connectionUnregister c))
  retune : ∀ c mode stateful, P (.reg (.connectionRetune c mode stateful))
  notify : ∀ c s old new stateLost, P (.notify c s old new stateLost)
  calloc : P .calloc

open Prog (All all_pure all_perform all_op all_bind all_ite all_forEach)

section VerbOps

variable {P : FwOp → Prop}

namespace VerbOps

variable (hP : VerbOps P)
include hP

theorem readRegistry : All P readRegistry := all_perform hP.registry

variable {c : CompId}

theorem callOp {o : CompOp} (h : P (.op o c)) : All P (callOp o c) :=
  all_bind hP.readRegistry fun _ => all_ite (all_perform h) (all_pure _)

theorem dispatchLifecycleHook (point : LifecycleHook) (c : CompId) (next : LifecycleState) :
    All P (dispatchLifecycleHook point c next) := all_op (hP.hook point c next) fun _ => all_pure _

theorem transitionFrom (c : CompId) (expectedFrom next : LifecycleState) :
    All P (transitionFrom c expectedFrom next) :=
  all_bind hP.readRegistry fun _ => all_ite (all_pure _)
    (all_ite (all_pure _) (all_regCall (hP.stateSet c next)))

theorem setPause (s : SlotId) (st : SlotPauseState) : All P (setPause s st) :=
  all_bind (all_regCall (hP.setPauseState s st)) fun _ => all_pure _

theorem foreachBoundSlot {cb : SlotId → FwM Unit} (h : ∀ s, All P (cb s)) (c : CompId) :
    All P (foreachBoundSlot c cb) :=
  all_bind hP.readRegistry fun _ =>
    all_forEach (fun s => all_bind hP.readRegistry fun _ => all_ite (h s) (all_pure _)) _

/-- Asking the hooks and the component, and going on. -/
theorem consult {k : FwM ℤ} (h : All P k) (point : LifecycleHook) (next : LifecycleState)
    {o : CompOp} (hop : P (.op o c)) : All P (do
      let rc ← Framework.dispatchLifecycleHook point c next
      if rc ≠ nxOk then pure rc
      else do
        let orc ← Framework.callOp o c
        if orc ≠ nxOk then pure orc else k) :=
  all_bind (hP.dispatchLifecycleHook point c next) fun _ => all_ite (all_pure _)
    (all_bind (hP.callOp hop) fun _ => all_ite (all_pure _) h)

theorem slotResumeCb (s : SlotId) : All P (slotResumeCb s) :=
  all_bind (hP.setPause s .none) fun _ => all_perform (hP.flush s)

theorem nxComponentInit (h : P (.op .init c)) : All P (nxComponentInit c) :=
  all_bind hP.readRegistry fun _ => all_ite (all_pure _)
    (all_bind (hP.callOp h) fun _ => all_ite (all_pure _) (hP.transitionFrom c _ _))

theorem nxComponentEnable (h : P (.op .enable c)) : All P (nxComponentEnable c) :=
  all_bind hP.readRegistry fun _ => all_ite (all_pure _)
    (hP.consult (hP.transitionFrom c _ _) .enable .active h)

theorem callPauseHook (c : CompId) : All P (callPauseHook c) :=
  all_bind hP.readRegistry fun _ => all_ite
    (all_op (hP.op .pauseHook c (by simp) (by simp)) fun _ =>
      all_ite (all_op (hP.deadlineExceeded c) fun _ => all_pure _) (all_pure _))
    (all_pure _)

theorem nxComponentPause (c : CompId) : All P (nxComponentPause c) := by
  have hcut := hP.foreachBoundSlot (fun s => hP.setPause s .cutting) c
  have hdrain : All P (Framework.foreachBoundSlot c slotDrainCb) :=
    hP.foreachBoundSlot (fun s => all_bind (hP.setPause s .draining) fun _ => all_perform (hP.drain s)) c
  have hback := hP.foreachBoundSlot hP.slotResumeCb c
  have hdone := hP.foreachBoundSlot (fun s => hP.setPause s .done) c
  refine all_bind hP.readRegistry fun _ => all_ite (all_pure _) ?_
  refine all_bind (hP.dispatchLifecycleHook _ c _) fun _ => all_ite (all_pure _) ?_
  refine all_bind hcut fun _ => all_bind hdrain fun _ => all_bind (hP.callPauseHook c) fun _ => ?_
  refine all_ite (all_bind hback fun _ => all_pure _)
    (all_bind (hP.callOp (hP.op .pause c (by simp) (by simp))) fun _ => ?_)
  exact all_ite (all_bind hback fun _ => all_pure _) (all_bind hdone fun _ => hP.transitionFrom c _ _)

theorem nxComponentResume (c : CompId) : All P (nxComponentResume c) :=
  all_bind hP.readRegistry fun _ => all_ite (all_pure _)
    (hP.consult (all_bind (hP.foreachBoundSlot hP.slotResumeCb c) fun _ => hP.transitionFrom c _ _)
      .resume .active (hP.op .resume c (by simp) (by simp)))

theorem nxComponentDisable (c : CompId) : All P (nxComponentDisable c) :=
  all_bind hP.readRegistry fun _ => all_ite (all_pure _)
    (hP.consult (all_regCall (hP.stateSet c .ready)) .disable .ready
      (hP.op .disable c (by simp) (by simp)))

theorem nxComponentDestroy (c : CompId) : All P (nxComponentDestroy c) :=
  all_bind hP.readRegistry fun _ => all_ite (all_pure _) (all_ite (all_pure _)
    (all_bind (hP.callOp (hP.op .destroy c (by simp) (by simp))) fun _ => hP.transitionFrom c _ _))

theorem verb (hinit : ∀ c, P (.op .init c)) (henable : ∀ c, P (.op .enable c)) (v : Verb)
    (c : Option CompId) : All P (v.call c) := by
  cases c with
  | none => cases v <;> exact all_pure _
  | some c =>
    cases v with
    | init => exact hP.nxComponentInit (hinit c)
    | enable => exact hP.nxComponentEnable (henable c)
    | pause => exact hP.nxComponentPause c
    | resume => exact hP.nxComponentResume c
    | disable => exact hP.nxComponentDisable c
    | destroy => exact hP.nxComponentDestroy c

theorem resumeIfPaused (s : SlotId) : All P (resumeIfPaused s) := by
  refine all_bind hP.readRegistry fun r => ?_
  cases (r.slot s).active with
  | none => exact all_pure _
  | some c => exact all_ite (all_bind (hP.nxComponentResume c) fun _ => all_pure _) (all_pure _)

theorem pauseSlots (before order : List SlotId) : All P (pauseSlots before order) := by
  induction order generalizing before with
  | nil => exact all_pure _
  | cons s rest ih =>
    refine all_bind hP.readRegistry fun r => ?_
    cases (r.slot s).active with
    | none => exact ih _
    | some c =>
      refine all_ite (ih _) (all_bind (hP.nxComponentPause c) fun _ => all_ite ?_ (ih _))
      exact all_bind (all_forEach hP.resumeIfPaused before) fun _ => all_pure _

theorem slotClearPause (s : SlotId) : All P (slotClearPause s) :=
  all_bind (hP.setPause s .none) fun _ => all_perform (hP.flush s)

theorem resumeSlot (henable : ∀ c, P (.op .enable c)) (s : SlotId) : All P (resumeSlot s) := by
  refine all_bind hP.readRegistry fun r => ?_
  cases (r.slot s).active with
  | none => exact all_pure _
  | some c =>
    refine all_ite (all_bind (hP.nxComponentEnable (henable c)) fun _ => hP.slotClearPause s)
      (all_ite ?_ (all_pure _))
    exact all_bind (hP.nxComponentResume c) fun _ => all_pure _

theorem withConnection {cc : ConnChange} {act : Registry → ConnId → RegCall}
    (h : ∀ r c, P (.reg (act r c))) : All P (withConnection cc act) := by
  refine all_bind hP.readRegistry fun r => ?_
  cases connFind r cc with
  | none => exact all_pure _
  | some c => exact all_bind (all_regCall (h r c)) fun _ => all_pure _

end VerbOps

namespace RecompOps

variable (hP : RecompOps P)
include hP

theorem swapSlot (change : SlotChange × Option CompId) : All P (swapSlot change) := by
  have hdisable : All P (disableOld change.2) := by
    refine all_bind hP.readRegistry fun r => ?_
    cases change.2 with
    | none => exact all_pure _
    | some old => exact all_ite (all_bind (hP.nxComponentDisable old) fun _ => all_pure _) (all_pure _)
  have hdestroy : All P (destroyOld change.2) := by
    refine all_bind hP.readRegistry fun r => ?_
    cases change.2 with
    | none => exact all_pure _
    | some old => exact all_ite (all_bind (hP.nxComponentDestroy old) fun _ => all_pure _) (all_pure _)
  exact all_ite (all_bind hdisable fun _ => all_bind (all_regCall (hP.slotSwap _ _))
    fun _ => hdestroy) (all_pure _)

theorem removeConnection (cc : ConnChange) : All P (removeConnection cc) :=
  all_ite (hP.withConnection fun _ c => hP.unregister (some c)) (all_pure _)

theorem addConnection (cc : ConnChange) : All P (addConnection cc) := by
  unfold Framework.addConnection
  cases cc.action with
  | add =>
    exact all_op hP.calloc fun _ => all_op hP.calloc fun _ =>
      all_bind (all_regCall (hP.register _ _ _ _ _ _ _)) fun _ => all_pure _
  | rewire => exact hP.withConnection fun _ c => hP.retune (some c) _ _
  | remove | other => exact all_pure _

theorem notifyDependents (change : SlotChange × Option CompId) : All P (notifyDependents change) := by
  refine all_ite ?_ (all_pure _)
  cases change.1.slot with
  | none => exact all_pure _
  | some s =>
    refine all_bind hP.readRegistry fun r => all_forEach (fun conn => ?_) _
    refine all_bind hP.readRegistry fun r => ?_
    cases (r.conn conn).fromSlot.bind fun dep => (r.slot dep).active with
    | none => exact all_pure _
    | some c => exact all_ite (all_perform (hP.notify _ _ _ _ _)) (all_pure _)

theorem nxRecompose (henable : ∀ c, P (.op .enable c)) (plan : Option RecompPlan) :
    All P (nxRecompose plan) := by
  cases plan with
  | none => exact all_pure _
  | some plan =>
    refine all_ite (all_pure _) (all_bind hP.readRegistry fun r => ?_)
    cases validate r plan.changes with
    | some e => exact all_pure _
    | none =>
      cases buildPauseOrder r plan.changedSlots plan.connections with
      | error e => exact all_pure _
      | ok order =>
        refine all_bind (hP.pauseSlots [] order) fun _ => all_ite (all_pure _)
          (all_bind ?_ fun _ => all_pure _)
        exact all_bind (all_forEach hP.removeConnection _) fun _ => all_bind
          (all_forEach hP.swapSlot _) fun _ =>
          all_bind (all_forEach hP.addConnection _) fun _ => all_bind
            (all_forEach (hP.resumeSlot henable) _) fun _ =>
            all_forEach hP.notifyDependents _

end RecompOps

end VerbOps

theorem ofVerb_verb (v : Verb) (c : Option CompId) : All FwOp.OfVerb (v.call c) :=
  VerbOps.verb (by constructor <;> intros <;> trivial) (fun _ => trivial) (fun _ => trivial) v c

theorem recompOps_keepsMembers : RecompOps FwOp.KeepsMembers := by
  constructor
  · constructor <;> intros <;> trivial
  all_goals intros; trivial

/-- **Verbs and recompositions leave the list of components alone.** -/
theorem run_components {α : Type} {p : FwM α} (h : Prog.All FwOp.KeepsMembers p) (w : World) :
    (Prog.run graphStep p w).1.reg.components = w.reg.components := by
  refine h.run_inv (fun w' : World => w'.reg.components = w.reg.components) (fun o ho w' hw' => ?_) rfl
  cases o with
  | reg call =>
    refine RegCall.next_inv (I := fun r => r.components = w.reg.components) hw' fun r' he => ?_
    cases he with
    | slotRegister => cases ho
    | slotUnregister => cases ho
    | slotSetFallback => cases ho
    | componentRegister => cases ho
    | componentUnregister => cases ho
    | slotSwap => exact hw'
    | slotSetPauseState => exact hw'
    | componentStateSet => exact hw'
    | connectionRegister => exact hw'
    | connectionRetune => exact hw'
    | connectionUnregister => exact hw'
  | registry => exact hw'
  | hook => exact hw'
  | op => exact hw'
  | deadlineExceeded => exact hw'
  | drain => exact hw'
  | flush => exact hw'
  | notify => exact hw'
  | calloc => exact hw'

/-- `nx_component_register` comes to the end: the component has a name that is not found, and there
is memory. -/
def Registrable (r : Registry) (c : CompId) (calloc : Bool) : Prop :=
  (r.comp c).manifestId ≠ none ∧ (r.comp c).instanceId ≠ none ∧
    r.nxComponentLookup (r.comp c).manifestId (r.comp c).instanceId = none ∧ calloc = true

variable {r : Registry} {c : CompId}

theorem componentRegister_ok {calloc : Bool} (h : Registrable r c calloc) :
    (RegCall.apply r (.componentRegister (some c) calloc)).2 = .ok () := by
  obtain ⟨hmanifest, hinstance, hnew, rfl⟩ := h
  rw [Registry.nxComponentLookup] at hnew
  simp [RegCall.apply, Registry.nxComponentRegister, hmanifest, hinstance, hnew]

/-- A call registers a component, takes one away, or leaves the list. -/
theorem next_components (r : Registry) (call : FwCall × Answers) :
    (∃ c calloc, call.1 = .reg (.componentRegister (some c) calloc) ∧ Registrable r c calloc ∧
      (call.1.run r call.2).2 = nxOk ∧ (FwCall.next r call).components = c :: r.components) ∨
    (∃ c, call.1 = .reg (.componentUnregister (some c)) ∧ (FwCall.next r call).components =
      r.components.erase c) ∨
      (FwCall.next r call).components = r.components := by
  obtain ⟨call, a⟩ := call
  cases call with
  | verb v c => exact .inr (.inr (run_components (recompOps_keepsMembers.verb (fun _ => trivial)
      (fun _ => trivial) v c) ⟨r, a⟩))
  | recompose plan => exact .inr (.inr
      (run_components (recompOps_keepsMembers.nxRecompose (fun _ => trivial) plan) ⟨r, a⟩))
  | reg call =>
    rcases call.outcome r with ⟨e, heq⟩ | ⟨hok, he⟩
    · refine .inr (.inr ?_)
      show (call.next r).components = _
      rw [RegCall.next, heq]
    · have hcode : (FwCall.run r (.reg call) a).2 = nxOk := by
        show Status.code (call.apply r).2 = nxOk
        rw [hok]
        rfl
      have hnext : FwCall.next r (.reg call, a) = (call.apply r).1 := rfl
      rw [hnext]
      generalize (call.apply r).1 = r' at he
      cases he with
      | @componentRegister c hname hnew =>
        refine .inl ⟨c, true, rfl, ⟨hname.1, hname.2, ?_, rfl⟩, hcode, rfl⟩
        rw [Registry.nxComponentLookup, Registry.componentNodeFind, if_neg (not_or.mpr hname),
          List.find?_eq_none]
        intro c' hc'
        simpa using hnew c' hc'
      | @componentUnregister c => exact .inr (.inl ⟨c, rfl, rfl⟩)
      | slotRegister | slotSwap | slotSetFallback | slotSetPauseState | slotUnregister | componentStateSet
      | connectionRegister | connectionRetune | connectionUnregister =>
        exact .inr (.inr rfl)

/-! ### Registered once -/

/-- No traversal has the component, no lookup returns it, and no slot can be bound to it. -/
structure Gone (r : Registry) (c : CompId) : Prop where
  traversal : c ∉ r.nxGraphForeachComponent
  lookup : ∀ manifestId instanceId, r.nxComponentLookup manifestId instanceId ≠ some c
  bind : ∀ s, (r.nxSlotSwap s (some c)).2 = .error .enoent

theorem gone_of_not_hasComp (h : ¬ r.HasComp c) : Gone r c := by
  refine ⟨h, fun manifestId instanceId hfind => ?_, fun s => ?_⟩
  · rw [Registry.nxComponentLookup, Registry.componentNodeFind] at hfind
    split_ifs at hfind
    exact h (List.mem_of_find?_eq_some hfind)
  · have hcn := Registry.componentNodeFor_eq_none_iff.mpr h
    unfold Registry.nxSlotSwap
    split
    · simp [hcn]
    · rfl

/-- A component is registered only when it is not in the list; it is asked only where the call
comes that far. -/
def RegistersAnew (r : Registry) : FwCall × Answers → Prop
  | (.reg (.componentRegister (some c) calloc), _) => Registrable r c calloc → ¬ r.HasComp c
  | _ => True

theorem next_nodup_iff (h : r.components.Nodup) (call : FwCall × Answers) :
    (FwCall.next r call).components.Nodup ↔ RegistersAnew r call := by
  obtain ⟨call, a⟩ := call
  rcases next_components r (call, a) with ⟨c, calloc, rfl, hreg, -, heq⟩ | ⟨c, rfl, heq⟩ | heq
  · rw [heq, List.nodup_cons]
    exact ⟨fun hnodup _ => hnodup.1, fun hnew => ⟨hnew hreg, h⟩⟩
  · rw [heq]
    exact ⟨fun _ => trivial, fun _ => h.erase c⟩
  · rw [heq]
    refine ⟨fun _ => ?_, fun _ => h⟩
    unfold RegistersAnew
    split
    · rename_i c calloc a' heq'
      cases heq'
      intro hreg _
      -- The call succeeds, and then the list is not what it was.
      have he := RegCall.effect_of_ok (componentRegister_ok hreg)
      change ((RegCall.componentRegister (some c) calloc).next r).components = _ at heq
      generalize (RegCall.componentRegister (some c) calloc).next r = r' at he heq
      cases he
      simp at heq
    · trivial

/-- The call does not register the component. -/
def DoesNotRegister (c : CompId) (r : Registry) (call : FwCall × Answers) : Prop :=
  ∀ calloc, call.1 = .reg (.componentRegister (some c) calloc) → (call.1.run r call.2).2 ≠ nxOk

theorem not_hasComp_run {calls : List (FwCall × Answers)} (h : ¬ r.HasComp c)
    (hcalls : RunOk FwCall.next (DoesNotRegister c) r calls) :
    ¬ (runFrom FwCall.next r calls).HasComp c := by
  refine hcalls.inv (fun r => ¬ r.HasComp c) (fun r call hcall hr hhas => ?_) h
  change c ∈ (FwCall.next r call).components at hhas
  change c ∉ r.components at hr
  rcases next_components r call with ⟨c', calloc, hreg, -, hok, heq⟩ | ⟨c', -, heq⟩ | heq
  · rw [heq, List.mem_cons] at hhas
    rcases hhas with rfl | hhas
    · exact hcall calloc hreg hok
    · exact hr hhas
  · rw [heq] at hhas
    exact hr (List.mem_of_mem_erase hhas)
  · rw [heq] at hhas
    exact hr hhas

/-- **Along every run, a component is in the list at most once and is gone when it has been
unregistered, until it is registered again, exactly when no component is registered that is in the
list.** -/
theorem registered_once_iff (slot : SlotId → Slot) (comp : CompId → Component)
    (calls : List (FwCall × Answers)) :
    ((∀ pre, pre <+: calls →
      (runFrom FwCall.next (bootRegistry slot comp) pre).nxGraphForeachComponent.Nodup) ∧
      ∀ pre c a post, pre ++ (.reg (.componentUnregister (some c)), a) :: post <+: calls →
        let r := runFrom FwCall.next (bootRegistry slot comp) pre
        let call : FwCall × Answers := (.reg (.componentUnregister (some c)), a)
        (call.1.run r a).2 = nxOk → RunOk FwCall.next (DoesNotRegister c) (FwCall.next r call) post →
          Gone (runFrom FwCall.next (FwCall.next r call) post) c) ↔
      RunOk FwCall.next RegistersAnew (bootRegistry slot comp) calls := by
  have honce : (∀ pre, pre <+: calls →
    (runFrom FwCall.next (bootRegistry slot comp) pre).components.Nodup) ↔
      RunOk FwCall.next RegistersAnew (bootRegistry slot comp) calls :=
    runOk_iff_forall_prefix (fun _ => True) (fun r : Registry => r.components.Nodup)
      (fun _ _ _ _ => trivial)
      (fun r call _ h => next_nodup_iff h call) trivial List.nodup_nil calls
  refine ⟨fun h => honce.mp h.1, fun h => ⟨honce.mpr h, ?_⟩⟩
  intro pre c a post hpre r call hok hpost
  have hnodup : r.components.Nodup := honce.mpr h pre ((List.prefix_append _ _).trans hpre)
  refine gone_of_not_hasComp (not_hasComp_run ?_ hpost)
  have he := RegCall.effect_of_ok (Status.code_eq_nxOk_iff.mp hok)
  show c ∉ ((RegCall.componentUnregister (some c)).next r).components
  generalize (RegCall.componentUnregister (some c)).next r = r' at he
  cases he
  exact hnodup.not_mem_erase

/-- A component is registered, initialised and destroyed, and registered again. -/
def registerDestroyed : List (FwCall × Answers) :=
  [(.reg (.componentRegister (some 7) true), agreeable), (.verb .init (some 7), agreeable),
    (.verb .destroy (some 7), agreeable), (.reg (.componentRegister (some 7) true), agreeable)]

/-- It is in the list twice. When it is unregistered it is still in the list, and a slot can be
bound to it. -/
theorem destroyed_registered_twice :
    let r := runFrom FwCall.next (bootRegistry (fun s => { name := some (toString s) })
      fun _ => { manifestId := some "m", instanceId := some "i" }) registerDestroyed
    let r' := (RegCall.componentUnregister (some 7)).next r
    let r'' := (RegCall.slotRegister (some 1) true).next r'
    r.nxGraphForeachComponent = [7, 7] ∧ (RegCall.apply r (.componentUnregister (some 7))).2 = .ok () ∧
      r'.nxGraphForeachComponent = [7] ∧ (r''.nxSlotSwap (some 1) (some 7)).2 = .ok () := by
  decide +kernel

end Nonux.Framework
