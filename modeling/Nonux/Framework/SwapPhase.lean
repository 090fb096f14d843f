import Nonux.Framework.Asking
import Nonux.Framework.PausePhase

/-!
# Putting the new components in

Once all is paused, `nx_recompose` goes over the changes of the plan. For each that replaces a
component it disables the old one, binds the slot to the new one, and destroys the old one if no
slot is bound to it any more. What each step returns is not looked at, so a disable that fails
leaves the old component as it was, and a swap that fails leaves the slot bound to it.

Nothing is done to components that are not replaced, and nothing is asked that is asked again when
components are enabled or resumed (`swapSlots_run`). A slot that is changed once gets its component
if both are registered (`swapSlots_bound`).
-/

namespace Nonux.Framework

open Nonux.Lib Function List
open Prog hiding pure

/-- The slot and the new component of a change that replaces. -/
def SlotChange.replacement (sc : SlotChange) : Option (SlotId × CompId) :=
  if sc.action = .replace then sc.slot.bind fun s => sc.newComp.map fun n => (s, n) else none

variable {sc : SlotChange} {s : SlotId} {n : CompId}

theorem SlotChange.replacement_eq_some :
    sc.replacement = some (s, n) ↔ sc.action = .replace ∧ sc.slot = some s ∧ sc.newComp = some n := by
  unfold SlotChange.replacement
  split_ifs with haction
  · simp [haction, Option.bind_eq_some_iff, Option.map_eq_some_iff]
  · simp [haction]

variable {r : Registry}

theorem replacement_eq_none (hvalid : validateChange r sc = none) (h : sc.replacement = none) :
    sc.action ≠ .replace := by
  intro haction
  unfold SlotChange.replacement at h
  cases hs : sc.slot with
  | none => simp [validateChange, hs] at hvalid
  | some s =>
    cases hn : sc.newComp with
    | none =>
      simp only [validateChange, hs, hn, haction, if_true] at hvalid
      split_ifs at hvalid
    | some n => simp [haction, hs, hn] at h

/-- New components are ready. -/
theorem ready_of_replacement (hvalid : validateChange r sc = none)
    (h : sc.replacement = some (s, n)) : (r.comp n).state = .ready := by
  obtain ⟨haction, hs, hn⟩ := SlotChange.replacement_eq_some.mp h
  simp only [validateChange, hs, hn, haction, if_true] at hvalid
  split_ifs at hvalid with _ hready
  exact not_not.mp hready

/-! ### One change -/

/-- A component that cannot be disabled any more. -/
def LifecycleState.Spent (st : LifecycleState) : Prop := st = .ready ∨ st = .destroyed

/-- The questions asked when a component is replaced. -/
def FwOp.AsksOld (o : CompId) (x : FwOp) : Prop := Ask.disable.Asks o x ∨ x = .op .destroy o

/-- What is left alone when the components `old` are replaced. -/
structure Swaps (old : CompId → Prop) (w w' : World) : Prop where
  same : SameLayout w.reg w'.reg
  pauseState : ∀ s, (w'.reg.slot s).pauseState = (w.reg.slot s).pauseState
  state : ∀ c, ¬ old c → (w'.reg.comp c).state = (w.reg.comp c).state
  spent : ∀ c, (w.reg.comp c).state.Spent → (w'.reg.comp c).state.Spent
  answers : ∀ x : FwOp, (∀ o, ¬ x.AsksOld o) → w'.answers x = w.answers x

variable {old : CompId → Prop} {w w' w'' : World}

theorem Swaps.refl (old : CompId → Prop) (w : World) : Swaps old w w :=
  ⟨.refl _, fun _ => rfl, fun _ _ => rfl, fun _ h => h, fun _ _ => rfl⟩

theorem Swaps.trans (h : Swaps old w w') (h' : Swaps old w' w'') : Swaps old w w'' where
  same := h.same.trans h'.same
  pauseState s := (h'.pauseState s).trans (h.pauseState s)
  state c hc := (h'.state c hc).trans (h.state c hc)
  spent c hc := h'.spent c (h.spent c hc)
  answers x hx := (h'.answers x hx).trans (h.answers x hx)

/-- A component is replaced: its state is set, and it is asked. -/
theorem swaps_setState {o : CompId} (ho : old o) {st : LifecycleState} (hst : st.Spent) {a : Answers}
    (ha : ∀ x : FwOp, ¬ x.AsksOld o → a x = w.answers x) : Swaps old w ⟨w.reg.setState o st, a⟩ := by
  refine ⟨.setState _ _ _, fun s => by rw [Registry.setState_slot], fun c hc => ?_, fun c hc => ?_,
    fun x hx => ha x (hx o)⟩
  · rw [setState_state, if_neg]
    rintro ⟨rfl, -⟩
    exact hc ho
  · rw [setState_state]
    split_ifs
    · exact hst
    · exact hc

/-- The old component is disabled, if it agrees. -/
theorem disableOld_run (o : Option CompId) (ho : ∀ c ∈ o, old c) (w : World) :
    Swaps old w (Prog.run graphStep (disableOld o) w).1 ∧
      (Prog.run graphStep (disableOld o) w).1.reg.slot = w.reg.slot := by
  rw [disableOld, run_readRegistry_bind]
  cases o with
  | none => exact ⟨.refl old w, rfl⟩
  | some o =>
    simp only [run_ite, run_bind, run_pure, run_nxComponentDisable]
    have hasked : ∀ x : FwOp, ¬ x.AsksOld o →
        (w.answers.consult (w.reg.comp o).ops .disable .ready .disable o).1 x = w.answers x :=
      fun x hx => consult_of_not_asks (q := .disable) _ _ fun h => hx (.inl h)
    split_ifs with hstate hother
    · exact ⟨.refl old w, rfl⟩
    · rw [World.settle]
      split_ifs
      · exact ⟨⟨.refl _, fun _ => rfl, fun _ _ => rfl, fun _ h => h, fun x hx => hasked x (hx o)⟩, rfl⟩
      · exact ⟨swaps_setState (ho o rfl) (.inl rfl) hasked, Registry.setState_slot _ _ _⟩
    · exact ⟨.refl old w, rfl⟩

/-- The slot is bound to the new component, if both are registered. -/
theorem slotSwap_run (old : CompId → Prop) (w : World) (s : SlotId) (n : CompId) :
    Swaps old w (Prog.run graphStep (regCall (.slotSwap (some s) (some n))) w).1 ∧
      ∀ t, ((Prog.run graphStep (regCall (.slotSwap (some s) (some n))) w).1.reg.slot t).active =
        if t = s ∧ w.reg.HasSlot s ∧ w.reg.HasComp n then some n else (w.reg.slot t).active := by
  rw [run_regCall]
  rcases RegCall.outcome w.reg (.slotSwap (some s) (some n)) with ⟨e, he⟩ | ⟨-, heffect⟩
  · have hno : ¬ (w.reg.HasSlot s ∧ w.reg.HasComp n) := by
      rintro ⟨hs, hn⟩
      obtain ⟨sn, hsn⟩ := Option.ne_none_iff_exists'.mp (Registry.slotNodeFor_ne_none_iff.mpr hs)
      have hcn : w.reg.componentNodeFor (some n) ≠ none :=
        mt Registry.componentNodeFor_eq_none_iff.mp (not_not.mpr hn)
      simp [RegCall.apply, Registry.nxSlotSwap, hsn, hcn] at he
    have hkept : RegCall.next w.reg (.slotSwap (some s) (some n)) = w.reg := congrArg Prod.fst he
    rw [hkept]
    exact ⟨.refl old w, fun t => by rw [if_neg fun h => hno h.2]⟩
  · change Effect w.reg _ (RegCall.next w.reg (.slotSwap (some s) (some n))) at heffect
    generalize RegCall.next w.reg (.slotSwap (some s) (some n)) = r' at heffect
    cases heffect with
    | slotSwap hs hnew gen log =>
      refine ⟨⟨⟨rfl, rfl, rfl, rfl, fun _ => rfl, rfl⟩, fun t => ?_, fun _ _ => rfl, fun _ h => h,
        fun _ _ => rfl⟩, fun t => ?_⟩
      all_goals by_cases hts : t = s
      · simp [hts]
      · simp [hts]
      · simp [hts, hs, hnew n rfl]
      · simp [hts]

/-- The old component is destroyed, if it is ready and no slot is bound to it. -/
theorem destroyOld_run (o : Option CompId) (ho : ∀ c ∈ o, old c) (w : World) :
    Swaps old w (Prog.run graphStep (destroyOld o) w).1 ∧
      (Prog.run graphStep (destroyOld o) w).1.reg.slot = w.reg.slot := by
  rw [destroyOld, run_readRegistry_bind]
  cases o with
  | none => exact ⟨.refl old w, rfl⟩
  | some o =>
    simp only [run_ite, run_bind, run_pure, run_nxComponentDestroy]
    split_ifs
    · exact ⟨.refl old w, rfl⟩
    · exact ⟨.refl old w, rfl⟩
    · refine ⟨swaps_setState (ho o rfl) (.inr rfl) fun x hx => ?_, Registry.setState_slot _ _ _⟩
      unfold Answers.askOp
      split_ifs
      · exact Answers.after_of_ne fun h => hx (.inr h)
      · rfl
    · exact ⟨.refl old w, rfl⟩

/-- **One change.** -/
theorem swapSlot_run (hsc : sc.replacement = some (s, n)) (o : Option CompId) (ho : ∀ c ∈ o, old c)
    (w : World) :
    Swaps old w (Prog.run graphStep (swapSlot (sc, o)) w).1 ∧
      ∀ t, ((Prog.run graphStep (swapSlot (sc, o)) w).1.reg.slot t).active =
        if t = s ∧ w.reg.HasSlot s ∧ w.reg.HasComp n then some n else (w.reg.slot t).active := by
  obtain ⟨haction, hslot, hcomp⟩ := SlotChange.replacement_eq_some.mp hsc
  simp only [swapSlot, haction, if_true, run_bind, hslot, hcomp]
  obtain ⟨hdisabled, hslot₁⟩ := disableOld_run o ho w
  generalize (Prog.run graphStep (disableOld o) w).1 = w₁ at hdisabled hslot₁
  obtain ⟨hswapped, hactive⟩ := slotSwap_run old w₁ s n
  generalize (Prog.run graphStep (regCall (.slotSwap (some s) (some n))) w₁).1 = w₂ at hswapped hactive
  obtain ⟨hdestroyed, hslot₃⟩ := destroyOld_run o ho w₂
  refine ⟨(hdisabled.trans hswapped).trans hdestroyed, fun t => ?_⟩
  simp only [hslot₃, hactive, hslot₁, hdisabled.same.hasSlot, hdisabled.same.hasComp]

/-! ### All changes -/

/-- The component is replaced in some slot. -/
def Replaced (changes : List (SlotChange × Option CompId)) (c : CompId) : Prop :=
  ∃ e ∈ changes, e.1.replacement ≠ none ∧ e.2 = some c

variable {changes : List (SlotChange × Option CompId)}

/-- **The new components are put in**, and slots that no change is about keep theirs. -/
theorem swapSlots_run (hvalid : ∀ e ∈ changes, validateChange r e.1 = none) (w : World) :
    Swaps (Replaced changes) w (Prog.run graphStep (Prog.forEach swapSlot changes) w).1 ∧
      ∀ s, (∀ e ∈ changes, ∀ n, e.1.replacement ≠ some (s, n)) →
        ((Prog.run graphStep (Prog.forEach swapSlot changes) w).1.reg.slot s).active =
          (w.reg.slot s).active := by
  refine run_forEach_inv (fun w' : World => Swaps (Replaced changes) w w' ∧
    ∀ s, (∀ e ∈ changes, ∀ n, e.1.replacement ≠ some (s, n)) →
      (w'.reg.slot s).active = (w.reg.slot s).active) ?_ ⟨.refl _ w, fun _ _ => rfl⟩
  rintro ⟨sc, o⟩ he w' ⟨hswaps, hkept⟩
  cases hrep : sc.replacement with
  | none =>
    rw [swapSlot, if_neg (replacement_eq_none (hvalid _ he) hrep), run_pure]
    exact ⟨hswaps, hkept⟩
  | some e =>
    obtain ⟨s, n⟩ := e
    have hold : ∀ c ∈ o, Replaced changes c := fun c hc => ⟨(sc, o), he, by simp [hrep], hc⟩
    obtain ⟨hstep, hactive⟩ := swapSlot_run hrep o hold w'
    refine ⟨hswaps.trans hstep, fun t ht => ?_⟩
    rw [hactive, if_neg, hkept t ht]
    rintro ⟨rfl, -⟩
    exact ht (sc, o) he n hrep

/-- **A slot that is changed once** is bound to its new component, if both are registered. -/
theorem swapSlots_bound (hvalid : ∀ e ∈ changes, validateChange r e.1 = none)
    (hone : changes.Pairwise fun e e' => ∀ s, e.1.slot = some s → e'.1.slot ≠ some s)
    {o : Option CompId} (he : (sc, o) ∈ changes) (hsc : sc.replacement = some (s, n)) (w : World) :
    ((Prog.run graphStep (Prog.forEach swapSlot changes) w).1.reg.slot s).active =
      if w.reg.HasSlot s ∧ w.reg.HasComp n then some n else (w.reg.slot s).active := by
  obtain ⟨pre, post, rfl⟩ := append_of_mem he
  obtain ⟨-, hslot, -⟩ := SlotChange.replacement_eq_some.mp hsc
  rw [pairwise_append, pairwise_cons] at hone
  -- The changes before and after are about other slots.
  have hpre : ∀ e ∈ pre, ∀ n', e.1.replacement ≠ some (s, n') := fun e he n' hrep =>
    hone.2.2 e he (sc, o) mem_cons_self s (SlotChange.replacement_eq_some.mp hrep).2.1 hslot
  have hpost : ∀ e ∈ post, ∀ n', e.1.replacement ≠ some (s, n') := fun e he n' hrep =>
    hone.2.1.1 e he s hslot (SlotChange.replacement_eq_some.mp hrep).2.1
  simp only [mem_append, mem_cons] at hvalid
  obtain ⟨hbefore, hsame⟩ := swapSlots_run (fun e he => hvalid e (.inl he)) w
  obtain ⟨-, hthis⟩ := swapSlot_run hsc o (fun _ _ => trivial)
    (Prog.run graphStep (Prog.forEach swapSlot pre) w).1
  rw [run_forEach_split, (swapSlots_run (fun e he => hvalid e (.inr (.inr he))) _).2 s hpost, hthis,
    hsame s hpre]
  simp only [true_and, hbefore.same.hasSlot, hbefore.same.hasComp]

/-- Every change comes with the component in its slot. -/
theorem mem_swaps {plan : RecompPlan} {e : SlotChange × Option CompId} :
    e ∈ plan.changes.zip (plan.oldComps r) ↔
      e.1 ∈ plan.changes ∧ e.2 = e.1.slot.bind fun s => (r.slot s).active := by
  rw [RecompPlan.oldComps, ← map_prod_left_eq_zip, mem_map]
  constructor
  · rintro ⟨sc, hsc, rfl⟩
    exact ⟨hsc, rfl⟩
  · rintro ⟨hsc, hold⟩
    exact ⟨e.1, hsc, Prod.ext rfl hold.symm⟩

theorem map_fst_swaps (r : Registry) (plan : RecompPlan) :
    (plan.changes.zip (plan.oldComps r)).map Prod.fst = plan.changes :=
  map_fst_zip (by simp [RecompPlan.oldComps])

end Nonux.Framework
