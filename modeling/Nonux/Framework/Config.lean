import Nonux.Framework.ComponentList
import Nonux.Framework.RecomposeSuccess

/-!
# Swapping a component by name (`framework/config.c`)

`nx_config_swap_component` looks for the slot of a name and for a component that is ready, by the
name of its implementation, and recomposes with the plan that puts the one in the other.

* `nxConfigSwapComponent_enables`: what the operations of components do to a state of their own is,
  when the new component ends up active, what its `enable` does, once.
-/

namespace Nonux.Framework

open Nonux.Lib
open Prog hiding pure

/-- `find_ready_comp_cb`, over all components. -/
def findReadyComp (r : Registry) (manifestId : String) : Option CompId :=
  r.nxGraphForeachComponent.find? fun c =>
    decide ((r.comp c).manifestId = some manifestId ∧ (r.comp c).state = .ready)

/-- The plan that puts a component in a slot. -/
def swapPlan (slot : SlotId) (new : CompId) : RecompPlan :=
  { changes := [{ slot := some slot, newComp := some new }] }

/-- `nx_config_swap_component`. -/
def nxConfigSwapComponent (slotName newImpl : Option String) : FwM ℤ :=
  match slotName, newImpl with
  | some slotName, some newImpl => do
    let r ← readRegistry
    match r.nxSlotLookup (some slotName) with
    | none => pure Err.enoent.code
    | some slot =>
      if (r.slot slot).mutability = .frozen then pure Err.eperm.code
      else
        match findReadyComp r newImpl with
        | none => pure Err.enoent.code
        | some new => nxRecompose (some (swapPlan slot new))
  | _, _ => pure Err.einval.code

/-! ### What is called of the components -/

/-- The operations that initialise and enable a component. -/
def FwOp.Enables : FwOp → Prop
  | .op .init _ | .op .enable _ => True
  | _ => False

theorem recompOps_not_enables : RecompOps fun o => ¬ o.Enables := by
  have hop : ∀ o c, o ≠ .init → o ≠ .enable → ¬ (FwOp.op o c).Enables := by
    intro o c hinit henable
    cases o <;> simp_all [FwOp.Enables]
  exact { op := hop, registry := id, hook := fun _ _ _ => id, deadlineExceeded := fun _ => id, drain := fun _ => id,
          flush := fun _ => id, stateSet := fun _ _ => id, setPauseState := fun _ _ => id,
            slotSwap := fun _ _ => id,
          register := fun _ _ _ _ _ _ _ => id, unregister := fun _ => id, retune := fun _ _ _ => id,
          notify := fun _ _ _ _ _ => id, calloc := id }

section Watch

variable {τ : Type} {act : τ → FwOp → τ} (hact : ∀ o : FwOp, ¬ o.Enables → ∀ t, act t o = t)
include hact

theorem run_watch_readRegistry_bind {α : Type} (f : Registry → FwM α) (w : World) (t : τ) :
    Prog.run (Prog.watch graphStep act) (readRegistry >>= f) (w, t) =
      Prog.run (Prog.watch graphStep act) (f w.reg) (w, t) := by
  change Prog.run (Prog.watch graphStep act) (f w.reg) (w, act t .registry) = _
  rw [hact .registry id]

/-- A component that is active when it has been enabled was asked, once. -/
theorem run_watch_enable (c : CompId) (w : World) (t : τ) (hready : (w.reg.comp c).state = .ready)
    (hop : CompOp.enable ∈ (w.reg.comp c).ops)
    (hactive : ((Prog.run graphStep (nxComponentEnable c) w).1.reg.comp c).state = .active) :
    (Prog.run (Prog.watch graphStep act) (nxComponentEnable c) (w, t)).1.2 = act t (.op .enable c) := by
  have hquiet := recompOps_not_enables
  rw [nxComponentEnable, run_watch_readRegistry_bind hact, run_ite, if_neg (not_not.mpr hready),
    run_bind, (hquiet.dispatchLifecycleHook .enable c .active).run_watch hact]
  rw [nxComponentEnable, run_readRegistry_bind, run_ite, if_neg (not_not.mpr hready),
    run_bind] at hactive
  have hreg : (Prog.run graphStep (dispatchLifecycleHook .enable c .active) w).1.reg = w.reg := rfl
  generalize Prog.run graphStep (dispatchLifecycleHook .enable c .active) w = res at hactive hreg ⊢
  dsimp only
  by_cases hrc : res.2 ≠ nxOk
  · rw [if_pos hrc, run_pure, hreg, hready] at hactive
    cases hactive
  · have hcall : Prog.run (Prog.watch graphStep act) (callOp .enable c) (res.1, t) =
        Prog.watch graphStep act (res.1, t) (.op .enable c) := by
      rw [callOp, run_watch_readRegistry_bind hact, run_ite, hreg, if_pos hop, run_perform]
    rw [if_neg hrc, run_bind, hcall]
    have hlast : ∀ orc : ℤ, Prog.All (fun o => ¬ o.Enables)
        (if orc ≠ nxOk then pure orc else transitionFrom c .ready .active : FwM ℤ) := fun orc =>
      all_ite (all_pure _) (hquiet.transitionFrom c _ _)
    exact (hlast _).run_watch_snd hact _

/-- A recomposition that comes through the pausing, watched. -/
theorem run_watch_nxRecompose {plan : RecompPlan} {order : List SlotId} {w : World}
    (h : Ordered w.reg plan order) (hrc : (Prog.run graphStep (pauseSlots [] order) w).2 = nxOk)
    (t : τ) : Prog.run (Prog.watch graphStep act) (nxRecompose (some plan)) (w, t) =
      ((Prog.run (Prog.watch graphStep act) (rewireAndResume plan (plan.oldComps w.reg) order)
        ((Prog.run graphStep (pauseSlots [] order) w).1, t)).1, nxOk) := by
  obtain ⟨hneg, hvalid, horder⟩ := h
  rw [nxRecompose, run_ite, if_neg (by simp [hneg]), run_watch_readRegistry_bind hact, hvalid, horder]
  dsimp only
  rw [run_bind, (recompOps_not_enables.pauseSlots [] order).run_watch hact, run_ite,
    if_neg (not_not.mpr hrc), run_bind]
  rfl

/-- The visit to a slot whose component is ready enables it. -/
theorem run_watch_resumeSlot {slot : SlotId} {c : CompId} {w : World} {t : τ}
    (hbound : (w.reg.slot slot).active = some c)
    (hstate : (w.reg.comp c).state = .ready ∨ (w.reg.comp c).state = .destroyed)
    (hop : CompOp.enable ∈ (w.reg.comp c).ops)
    (hactive : ((Prog.run graphStep (resumeSlot slot) w).1.reg.comp c).state = .active) :
    (Prog.run (Prog.watch graphStep act) (resumeSlot slot) (w, t)).1.2 = act t (.op .enable c) := by
  rw [resumeSlot, run_watch_readRegistry_bind hact, hbound]
  rw [resumeSlot, run_readRegistry_bind, hbound] at hactive
  dsimp only at hactive ⊢
  rcases hstate with hready | hdestroyed
  · rw [run_ite, if_pos hready, run_bind] at hactive ⊢
    rw [(recompOps_not_enables.slotClearPause slot).run_watch_snd hact]
    refine run_watch_enable hact c w t hready hop ?_
    have hsame : ∀ w : World, (Prog.run graphStep (slotClearPause slot) w).1.reg.comp =
      w.reg.comp := fun w =>
      setPause_comp w.reg slot .none
    rwa [hsame] at hactive
  · rw [hdestroyed] at hactive
    simp [hdestroyed] at hactive

/-- The phases between the pausing and the visits. -/
def rewire (plan : RecompPlan) (old : List (Option CompId)) : FwM Unit := do
  Prog.forEach removeConnection plan.connections
  Prog.forEach swapSlot (plan.changes.zip old)
  Prog.forEach addConnection plan.connections

omit hact in
theorem run_rewireAndResume (plan : RecompPlan) (old : List (Option CompId)) (slot : SlotId)
    (w : World) : (Prog.run graphStep (rewireAndResume plan old [slot]) w).1.reg =
      (Prog.run graphStep (resumeSlot slot) (Prog.run graphStep (rewire plan old) w).1).1.reg := by
  simp only [rewireAndResume, rewire, run_bind, notifyDependents_run, List.reverse_singleton,
    run_forEach_singleton]

/-- Of the phases after the pausing only the visits may enable a component. -/
theorem run_watch_rewireAndResume (plan : RecompPlan) (old : List (Option CompId)) (slot : SlotId)
    (w : World) (t : τ) :
    (Prog.run (Prog.watch graphStep act) (rewireAndResume plan old [slot]) (w, t)).1.2 =
      (Prog.run (Prog.watch graphStep act) (resumeSlot slot)
        ((Prog.run graphStep (rewire plan old) w).1, t)).1.2 := by
  have hquiet := recompOps_not_enables
  rw [rewireAndResume, run_bind, (all_forEach hquiet.removeConnection _).run_watch hact, run_bind,
    (all_forEach hquiet.swapSlot _).run_watch hact, run_bind,
    (all_forEach hquiet.addConnection _).run_watch hact, run_bind,
    (all_forEach hquiet.notifyDependents _).run_watch_snd hact, List.reverse_singleton,
      run_forEach_singleton]
  simp only [rewire, run_bind]

end Watch

/-! ### The swap -/

variable {r : Registry}

/-- The order of a plan with one change. -/
theorem order_swapPlan {slot : SlotId} {new : CompId} {order : List SlotId}
    (h : buildPauseOrder r (swapPlan slot new).changedSlots (swapPlan slot new).connections =
      .ok order) :
    order = [slot] := by
  have hperm := buildPauseOrder_perm h
  simpa [swapPlan, RecompPlan.changedSlots, affectedSlots, rewiredSlots, appendNew] using hperm

variable {a : Answers}

/-- The new component is in the slot when the slots are going to be visited, and is ready or
destroyed. -/
theorem beforeVisits_swapPlan {slot : SlotId} {new : CompId} {w : World}
    (h : BeforeVisits (swapPlan slot new) r a [slot] w) (hslot : r.HasSlot slot) (hnew : r.HasComp new)
    (hready : (r.comp new).state = .ready) :
    (w.reg.slot slot).active = some new ∧
    ((w.reg.comp new).state = .ready ∨ (w.reg.comp new).state = .destroyed) := by
  refine ⟨?_, h.spent new (.inl hready)⟩
  rw [h.bound slot new ⟨_, List.mem_singleton.mpr rfl, rfl⟩, if_pos ⟨hslot, hnew⟩]

/-- A call that succeeds has found the slot and a component that is ready. -/
theorem nxConfigSwapComponent_found {slotName newImpl : Option String}
    (hok : (Prog.run graphStep (nxConfigSwapComponent slotName newImpl) ⟨r, a⟩).2 = nxOk) :
    ∃ name impl slot new, slotName = some name ∧ newImpl = some impl ∧
      r.nxSlotLookup (some name) = some slot ∧
      (r.slot slot).mutability ≠ .frozen ∧ findReadyComp r impl = some new := by
  cases slotName with
  | none => cases newImpl <;> exact absurd hok (Err.code_ne_nxOk .einval)
  | some name =>
    cases newImpl with
    | none => exact absurd hok (Err.code_ne_nxOk .einval)
    | some impl =>
      rw [nxConfigSwapComponent, run_readRegistry_bind] at hok
      cases hslot : r.nxSlotLookup (some name) with
      | none =>
        rw [hslot] at hok
        exact absurd hok (Err.code_ne_nxOk .enoent)
      | some slot =>
        rw [hslot] at hok
        dsimp only at hok
        by_cases hfrozen : (r.slot slot).mutability = .frozen
        · rw [if_pos hfrozen] at hok
          exact absurd hok (Err.code_ne_nxOk .eperm)
        · rw [if_neg hfrozen] at hok
          cases hnew : findReadyComp r impl with
          | none =>
            rw [hnew] at hok
            exact absurd hok (Err.code_ne_nxOk .enoent)
          | some new => exact ⟨name, impl, slot, new, rfl, rfl, hslot, hfrozen, hnew⟩

/-- **A swap after which the new component is active has called its `enable` once**, and nothing
else that initialises or enables a component. -/
theorem nxConfigSwapComponent_enables {τ : Type} {act : τ → FwOp → τ}
    (hact : ∀ o : FwOp, ¬ o.Enables → ∀ t, act t o = t) (hr : Consistent r) {t : τ}
    {slotName newImpl : Option String}
    (hok : (Prog.run graphStep (nxConfigSwapComponent slotName newImpl) ⟨r, a⟩).2 = nxOk) :
    ∃ slot new, r.nxSlotLookup slotName = some slot ∧ newImpl.bind (findReadyComp r) = some new ∧
      let w := (Prog.run graphStep (nxConfigSwapComponent slotName newImpl) ⟨r, a⟩).1
      (w.reg.slot slot).active = some new ∧
        ((w.reg.comp new).state = .active → CompOp.enable ∈ (r.comp new).ops →
          (Prog.run (Prog.watch graphStep act) (nxConfigSwapComponent slotName newImpl)
            (⟨r, a⟩, t)).1.2 = act t (.op .enable new)) := by
  obtain ⟨name, impl, slot, new, rfl, rfl, hslot, hfrozen, hnew⟩ := nxConfigSwapComponent_found hok
  refine ⟨slot, new, hslot, hnew, ?_⟩
  have hplain : ∀ w : World, w.reg = r →
    Prog.run graphStep (nxConfigSwapComponent (some name) (some impl)) w =
      Prog.run graphStep (nxRecompose (some (swapPlan slot new))) w := by
    rintro w rfl
    rw [nxConfigSwapComponent, run_readRegistry_bind, hslot]
    dsimp only
    rw [if_neg hfrozen, hnew]
  have hwatched : Prog.run (Prog.watch graphStep act)
    (nxConfigSwapComponent (some name) (some impl)) (⟨r, a⟩, t) =
      Prog.run (Prog.watch graphStep act) (nxRecompose (some (swapPlan slot new))) (⟨r, a⟩, t) := by
    rw [nxConfigSwapComponent, run_watch_readRegistry_bind hact, hslot]
    dsimp only
    rw [if_neg hfrozen, hnew]
  rw [hwatched]
  rw [hplain _ rfl] at hok ⊢
  rcases nxRecompose_cases (some (swapPlan slot new)) ⟨r, a⟩ with ⟨⟨e, hrun⟩, -⟩ | ⟨p, order, hp,
    hordered, hrun⟩
  · rw [hrun] at hok
    exact absurd hok (Err.code_ne_nxOk e)
  cases hp
  cases order_swapPlan hordered.2.2
  have hrc : (Prog.run graphStep (pauseSlots [] [slot]) ⟨r, a⟩).2 = nxOk := by
    by_contra hno
    rw [hrun, if_pos hno] at hok
    exact hno hok
  rw [hrun, if_neg (not_not.mpr hrc), run_watch_nxRecompose hact hordered hrc]
  have hbefore := beforeVisits hr.edges.listed hordered
    (by simp [swapPlan, RecompPlan.changedSlots]) (pauseSlots_ok hrc)
  generalize (Prog.run graphStep (pauseSlots [] [slot]) ⟨r, a⟩).1 = w at hbefore ⊢
  dsimp only
  rw [run_watch_rewireAndResume hact, run_rewireAndResume]
  change BeforeVisits _ _ _ _
    (Prog.run graphStep (rewire (swapPlan slot new) ((swapPlan slot new).oldComps r)) w).1
    at hbefore
  generalize
    (Prog.run graphStep (rewire (swapPlan slot new) ((swapPlan slot new).oldComps r)) w).1 = w₁
    at hbefore ⊢
  obtain ⟨node, hnode, rfl⟩ := Option.map_eq_some_iff.mp hslot
  have hfind := List.find?_some hnew
  rw [decide_eq_true_eq] at hfind
  obtain ⟨hbound, hstate⟩ := beforeVisits_swapPlan hbefore
    (List.mem_map_of_mem (List.mem_of_find?_eq_some hnode)) (List.mem_of_find?_eq_some hnew) hfind.2
  refine ⟨?_, fun hactive hop => run_watch_resumeSlot hact hbound hstate (hbefore.ops new ▸ hop) hactive⟩
  have hvisited := resumeSlots_spares_none [node.slot] w₁
  rw [run_forEach_singleton] at hvisited
  rw [hvisited.same.active, hbound]

end Nonux.Framework
