import Nonux.Framework.Asking
import Nonux.Framework.PausePhase

/-!
# Enabling and resuming at the end of a recomposition

At its end `nx_recompose` visits the slots of its order, dependencies first. In a slot whose
component is ready it enables the component and clears the slot, whatever came of the enabling; in
one whose component is paused it resumes the component, which opens all the slots bound to it.

A visit does nothing to other components, to slots that are bound to others, or to what these are
going to answer (`resumeSlots_spares`). So a component that is in one of the slots only gets what
the visit to this slot does (`resumeSlots_visited`).
-/

namespace Nonux.Framework

open Nonux.Lib List

/-! ### What a visit leaves alone -/

/-- The slots bound to `o`, and `o` itself if it is a component, are as they were. -/
structure Spares (o : Option CompId) (w w' : World) : Prop where
  same : SameGraph w.reg w'.reg
  pause : ∀ s, (w.reg.slot s).active = o → (w'.reg.slot s).pauseState = (w.reg.slot s).pauseState
  state : ∀ c ∈ o, (w'.reg.comp c).state = (w.reg.comp c).state
  answers : ∀ q, ∀ c ∈ o, w'.answers.AgreeOn q c w.answers

section Spares

variable {o : Option CompId} {c : CompId} {w w' w'' : World} {t : SlotId}

theorem Spares.refl (o : Option CompId) (w : World) : Spares o w w :=
  ⟨.refl _, fun _ _ => rfl, fun _ _ => rfl, fun _ _ _ _ _ => rfl⟩

theorem Spares.trans (h : Spares o w w') (h' : Spares o w' w'') : Spares o w w'' where
  same := h.same.trans h'.same
  pause s hs := (h'.pause s ((h.same.active s).trans hs)).trans (h.pause s hs)
  state c hc := (h'.state c hc).trans (h.state c hc)
  answers q c hc := (h'.answers q c hc).trans (h.answers q c hc)

variable (hne : o ≠ some c)
include hne

theorem spares_consult (q : Ask) (ops : List CompOp) (w : World) :
    Spares o w ⟨w.reg, (w.answers.consult ops q.point q.next q.op c).1⟩ := by
  refine ⟨.refl _, fun _ _ => rfl, fun _ _ => rfl, fun q' c' hc' x hx => ?_⟩
  exact consult_of_not_asks _ _ fun hx' => hne (hx.unique hx' ▸ hc')

theorem spares_setState (st : LifecycleState) (w : World) :
    Spares o w ⟨w.reg.setState c st, w.answers⟩ := by
  refine ⟨.setState _ _ _, fun s _ => by rw [Registry.setState_slot], fun c' hc' => ?_,
    fun _ _ _ _ _ => rfl⟩
  rw [setState_state, if_neg]
  rintro ⟨rfl, -⟩
  exact hne hc'

theorem spares_pauseBound (st : SlotPauseState) (w : World) :
    Spares o w ⟨w.reg.pauseBound c st, w.answers⟩ := by
  refine ⟨.pauseBound _ _ _, fun s hs => ?_, fun _ _ => by rw [Registry.pauseBound_comp],
    fun _ _ _ _ _ => rfl⟩
  rw [pauseBound_pauseState, if_neg fun h => hne (hs.symm.trans h.2)]

theorem spares_setPause (ht : (w.reg.slot t).active = some c) (st : SlotPauseState) :
    Spares o w ⟨w.reg.setPause t st, w.answers⟩ := by
  refine ⟨.setPause _ _ _, fun s hs => ?_, fun _ _ => by rw [setPause_comp], fun _ _ _ _ _ => rfl⟩
  rw [setPause_pauseState, if_neg]
  rintro ⟨rfl, -⟩
  exact hne (hs.symm.trans ht)

end Spares

/-! ### A visit -/

section Visit

variable {o : Option CompId} {c : CompId} {w : World} {t : SlotId}

/-- A visit to a slot whose component is neither ready nor paused. -/
theorem run_resumeSlot_skip (h : ∀ c ∈ (w.reg.slot t).active,
      (w.reg.comp c).state ≠ .ready ∧ (w.reg.comp c).state ≠ .paused) :
    (Prog.run graphStep (resumeSlot t) w).1 = w := by
  rw [resumeSlot, run_readRegistry_bind]
  cases hactive : (w.reg.slot t).active with
  | none => rfl
  | some c =>
    obtain ⟨hready, hpaused⟩ := h c hactive
    simp only [hready, hpaused, if_false, Prog.run_pure]

variable (hactive : (w.reg.slot t).active = some c)
include hactive

/-- A visit to a slot whose component is ready. -/
theorem run_resumeSlot_ready (hready : (w.reg.comp c).state = .ready) :
    (Prog.run graphStep (resumeSlot t) w).1 =
      ⟨Registry.setPause (if w.answers.Agrees .enable (w.reg.comp c).ops c
          then w.reg.setState c .active else w.reg) t .none,
        (w.answers.consult (w.reg.comp c).ops .enable .active .enable c).1⟩ := by
  have hclear : ∀ w', Prog.run graphStep (slotClearPause t) w' =
      (⟨w'.reg.setPause t .none, w'.answers⟩, ()) := fun _ => rfl
  rw [resumeSlot, run_readRegistry_bind]
  simp only [hactive, hready, if_true, Prog.run_bind, hclear, run_nxComponentEnable, ne_eq, not_true,
    if_false, World.settle]
  by_cases hok : w.answers.Agrees .enable (w.reg.comp c).ops c
  · rw [if_pos hok]
    split_ifs with h
    · rfl
    · exact absurd hok h
  · rw [if_neg hok]
    split_ifs with h
    · exact absurd h hok
    · rfl

/-- A visit to a slot whose component is paused. -/
theorem run_resumeSlot_paused (hpaused : (w.reg.comp c).state = .paused) :
    (Prog.run graphStep (resumeSlot t) w).1 =
      ⟨if w.answers.Agrees .resume (w.reg.comp c).ops c
          then (w.reg.pauseBound c .none).setState c .active else w.reg,
        (w.answers.consult (w.reg.comp c).ops .resume .active .resume c).1⟩ := by
  rw [resumeSlot, run_readRegistry_bind]
  simp only [hactive, hpaused, reduceCtorEq, if_true, if_false, Prog.run_bind, Prog.run_pure,
    run_nxComponentResume, ne_eq, not_true, World.settle]
  by_cases hok : w.answers.Agrees .resume (w.reg.comp c).ops c
  · rw [if_pos hok]
    split_ifs with h
    · rfl
    · exact absurd hok h
  · rw [if_neg hok]
    split_ifs with h
    · exact absurd h hok
    · rfl

omit hactive in
/-- A visit is to the component in the slot. -/
theorem resumeSlot_spares (hne : ∀ c ∈ (w.reg.slot t).active, o ≠ some c) :
    Spares o w (Prog.run graphStep (resumeSlot t) w).1 := by
  by_cases hskip : ∀ c ∈ (w.reg.slot t).active,
      (w.reg.comp c).state ≠ .ready ∧ (w.reg.comp c).state ≠ .paused
  · rw [run_resumeSlot_skip hskip]
    exact .refl o w
  · push Not at hskip
    obtain ⟨c, hactive, hstate⟩ := hskip
    have hne := hne c hactive
    by_cases hready : (w.reg.comp c).state = .ready
    · rw [run_resumeSlot_ready hactive hready]
      have hasked := spares_consult hne .enable (w.reg.comp c).ops w
      split_ifs
      · exact (hasked.trans (spares_setState hne .active _)).trans
          (spares_setPause hne (by rwa [Registry.setState_slot]) .none)
      · refine hasked.trans (spares_setPause hne ?_ .none)
        exact hactive
    · rw [run_resumeSlot_paused hactive (hstate hready)]
      have hasked := spares_consult hne .resume (w.reg.comp c).ops w
      split_ifs
      · exact (hasked.trans (spares_pauseBound hne .none _)).trans (spares_setState hne .active _)
      · exact hasked

end Visit

/-! ### All visits -/

variable {o : Option CompId} {slots : List SlotId} {w : World}

theorem resumeSlots_spares (h : ∀ t ∈ slots, ∀ c ∈ (w.reg.slot t).active, o ≠ some c) :
    Spares o w (Prog.run graphStep (Prog.forEach resumeSlot slots) w).1 := by
  refine Prog.run_forEach_inv (Spares o w) (fun t ht w' hw' => ?_) (.refl o w)
  exact hw'.trans (resumeSlot_spares (by rw [hw'.same.active]; exact h t ht))

/-- Slots without a component are left alone. -/
theorem resumeSlots_spares_none (slots : List SlotId) (w : World) :
    Spares none w (Prog.run graphStep (Prog.forEach resumeSlot slots) w).1 :=
  resumeSlots_spares fun _ _ _ _ => by simp

/-- What is there when the slots have been visited, of a slot and its component. -/
structure Visited (t : SlotId) (c : CompId) (w w' : World) : Prop where
  state : (w.reg.comp c).state = .ready → (w'.reg.comp c).state =
    if w.reg.HasComp c ∧ w.answers.Agrees .enable (w.reg.comp c).ops c then .active else .ready
  ready : (w.reg.comp c).state = .ready → (w'.reg.slot t).pauseState =
    if w.reg.HasSlot t then .none else (w.reg.slot t).pauseState
  paused : (w.reg.comp c).state = .paused → (w'.reg.slot t).pauseState =
    if w.reg.HasSlot t ∧ w.answers.Agrees .resume (w.reg.comp c).ops c then .none
    else (w.reg.slot t).pauseState
  skipped : (w.reg.comp c).state ≠ .ready → (w.reg.comp c).state ≠ .paused →
    (w'.reg.slot t).pauseState = (w.reg.slot t).pauseState

variable {t : SlotId} {c : CompId}

theorem resumeSlot_visited (hactive : (w.reg.slot t).active = some c) :
    Visited t c w (Prog.run graphStep (resumeSlot t) w).1 := by
  refine ⟨fun hready => ?_, fun hready => ?_, fun hpaused => ?_, fun hready hpaused => ?_⟩
  · rw [run_resumeSlot_ready hactive hready, setPause_comp]
    split_ifs with hok h h
    · simp [setState_state, h.1]
    · have hno : ¬ w.reg.HasComp c := fun hc => h ⟨hc, hok⟩
      simp [setState_state, hno, hready]
    · exact absurd h.2 hok
    · exact hready
  · rw [run_resumeSlot_ready hactive hready, setPause_pauseState]
    split_ifs <;> simp_all
  · rw [run_resumeSlot_paused hactive hpaused]
    split_ifs with hok h h
    · simp [pauseBound_pauseState, h.1, hactive]
    · have hno : ¬ w.reg.HasSlot t := fun hs => h ⟨hs, hok⟩
      simp [pauseBound_pauseState, hno]
    · exact absurd h.2 hok
    · rfl
  · rw [run_resumeSlot_skip fun c' hc' => ?_]
    obtain rfl := Option.some.inj (hactive.symm.trans hc')
    exact ⟨hready, hpaused⟩

/-- **The visits to the slots of the order**, for a component in one of them only. -/
theorem resumeSlots_visited {pre post : List SlotId} (hactive : (w.reg.slot t).active = some c)
    (hother : ∀ s ∈ pre ++ post, (w.reg.slot s).active ≠ some c) :
    Visited t c w (Prog.run graphStep (Prog.forEach resumeSlot (pre ++ t :: post)) w).1 := by
  rw [forall_mem_append] at hother
  rw [Prog.run_forEach_split]
  have hbefore : Spares (some c) w (Prog.run graphStep (Prog.forEach resumeSlot pre) w).1 :=
    resumeSlots_spares fun s hs c' hc' heq => hother.1 s hs (heq ▸ hc')
  generalize (Prog.run graphStep (Prog.forEach resumeSlot pre) w).1 = w₁ at hbefore ⊢
  have hvisit := resumeSlot_visited ((hbefore.same.active t).trans hactive)
  have hsame : SameGraph w.reg (Prog.run graphStep (resumeSlot t) w₁).1.reg :=
    hbefore.same.trans (resumeSlot_spares (o := none) fun _ _ => by simp).same
  generalize (Prog.run graphStep (resumeSlot t) w₁).1 = w₂ at hvisit hsame ⊢
  have hafter : Spares (some c) w₂ (Prog.run graphStep (Prog.forEach resumeSlot post) w₂).1 :=
    resumeSlots_spares fun s hs c' hc' heq => hother.2 s hs (by rw [← hsame.active, hc', heq])
  have hagree := fun q => hbefore.answers q c rfl
  obtain ⟨hstate, hready, hpaused, hskipped⟩ := hvisit
  simp only [hbefore.state c rfl, hbefore.same.hasComp, hbefore.same.hasSlot, hbefore.same.ops,
    hbefore.pause t hactive, (hagree _).agrees_iff] at hstate hready hpaused hskipped
  constructor
  · rwa [hafter.state c rfl]
  all_goals rwa [hafter.pause t ((hsame.active t).trans hactive)]

end Nonux.Framework
