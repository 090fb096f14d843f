import Nonux.Framework.PausePhase

/-!
# What a recomposition that fails leaves behind

A recomposition fails in its checks, in its ordering, or at the first slot where a pause fails.
In the last case it resumes every component it finds paused behind the slots before that one. It
does not know which of them it has paused itself, and resuming a component clears the pause state
of all slots bound to it. So the graph is as before just when nothing behind those slots was paused
already, and no slot bound to what is behind them had a pause state of its own
(`recompose_failure_restores_iff`).
-/

namespace Nonux.Framework

open Nonux.Lib

/-- Components, bindings, pause states and connections are as they were. -/
structure Restored (r r' : Registry) : Prop where
  state : ∀ c, (r'.comp c).state = (r.comp c).state
  active : ∀ s, (r'.slot s).active = (r.slot s).active
  pause : ∀ s, (r'.slot s).pauseState = (r.slot s).pauseState
  connections : r'.connections = r.connections
  conn : r'.conn = r.conn

theorem Restored.refl (r : Registry) :
    Restored r r := ⟨fun _ => rfl, fun _ => rfl, fun _ => rfl, rfl, rfl⟩

theorem SameGraph.restored_iff {r r' : Registry} (h : SameGraph r r') :
    Restored r r' ↔
      (∀ c, (r'.comp c).state = (r.comp c).state) ∧
      ∀ s, (r'.slot s).pauseState = (r.slot s).pauseState :=
  ⟨fun hr => ⟨hr.state, hr.pause⟩, fun hr => ⟨hr.1, h.active, hr.2, h.connections, h.conn⟩⟩

/-- The pause state a pause that fails leaves in the slots bound to the component: none where a hook
aborts, and where the component agrees it is that it is not registered. -/
def PauseAnswer.leaves : PauseAnswer → Option SlotPauseState
  | .aborted => none
  | .refused _ => some .none
  | .agreed => some .done

/-- The state before the call is one that the way back leads to, when pausing `c` fails and the
slots `pre` come before. -/
structure CleanRollback (r : Registry) (a : Answers) (pre : List SlotId) (c : CompId) : Prop where
  /-- Nothing registered behind these slots was paused. -/
  paused : ∀ c', Behind r pre c' → (r.comp c').state = .paused → ¬ r.HasComp c'
  /-- Slots bound to what is active or paused behind them had no pause state. -/
  slots : ∀ c', Behind r pre c' → (r.comp c').state = .active ∨ (r.comp c').state = .paused →
    ∀ s, r.HasSlot s → (r.slot s).active = some c' → (r.slot s).pauseState = .none
  /-- Slots bound to `c` had the pause state that its pause leaves. -/
  failed : ∀ st ∈ (a.askPause (r.comp c).ops c).2.leaves,
    ∀ s, r.HasSlot s → (r.slot s).active = some c → (r.slot s).pauseState = st

/-- What a pause that fails does. -/
theorem run_pause_fails_reg {w : World} {c : CompId} (h : PauseFails w.reg w.answers c) :
    (Prog.run graphStep (nxComponentPause c) w).1 =
      ⟨(w.answers.askPause (w.reg.comp c).ops c).2.leaves.elim w.reg (w.reg.pauseBound c),
        (w.answers.askPause (w.reg.comp c).ops c).1⟩ := by
  rw [run_nxComponentPause, if_neg (not_not.mpr h.1)]
  rcases hask : w.answers.askPause (w.reg.comp c).ops c with ⟨a, answer⟩
  cases answer with
  | aborted => rfl
  | refused rc => rfl
  | agreed =>
    have hcomp : ¬ w.reg.HasComp c := h.2.resolve_left (by rw [hask]; simp)
    show World.mk _ _ = _
    rw [Registry.setState_of_not_hasComp]
    · rfl
    · exact hcomp

theorem behind_reverse {r : Registry} {slots : List SlotId} {c : CompId} :
    Behind r slots.reverse c ↔ Behind r slots c := by
  simp [Behind]

section Rollback

variable {r r' : Registry} {a : Answers} {pre : List SlotId} {s : SlotId} {c : CompId} {w : World}

/-- What is active behind the slots before the failure has been paused, so it is registered. -/
theorem FirstFailure.hasComp (h : FirstFailure r a pre s c) {c' : CompId} (hin : ActiveIn r pre c') :
    r.HasComp c' := by
  obtain ⟨hactive, t, ht, hbound⟩ := hin
  by_contra hno
  exact h.2.2 t ht c' hbound ⟨hactive, .inr hno⟩

/-- The graph when the pause has failed, before the way back. -/
def failedReg (w : World) (c : CompId) (answer : PauseAnswer) : Registry :=
  answer.leaves.elim w.reg (w.reg.pauseBound c)

theorem failedReg_same (w : World) (c : CompId) (answer : PauseAnswer) :
    SameGraph w.reg (failedReg w c answer) := by
  cases answer with
  | aborted => exact .refl _
  | refused rc => exact .pauseBound _ c .none
  | agreed => exact .pauseBound _ c .done

theorem failedReg_comp (w : World) (c : CompId) (answer : PauseAnswer) :
    (failedReg w c answer).comp = w.reg.comp := by
  cases answer <;> rfl

theorem failedReg_pause (w : World) (c : CompId) (answer : PauseAnswer) (t : SlotId) :
    ((failedReg w c answer).slot t).pauseState =
      if w.reg.HasSlot t ∧ (w.reg.slot t).active = some c then answer.leaves.getD
      (w.reg.slot t).pauseState else (w.reg.slot t).pauseState := by
  cases answer with
  | aborted => simp [failedReg, PauseAnswer.leaves]
  | refused rc => exact pauseBound_pauseState _ c .none t
  | agreed => exact pauseBound_pauseState _ c .done t

/-- The states after the way back. -/
theorem rollback_state (hw : PausedUpTo r a pre w) (hfirst : FirstFailure r a pre s c)
    (answer : PauseAnswer) (h : ResumedFrom (failedReg w c answer) pre.reverse r') (c' : CompId) :
    (r'.comp c').state =
      if Behind r pre c' ∧ (r.comp c').state = .paused ∧
      r.HasComp c' then .active else (r.comp c').state := by
  have hsame := hw.same.trans (failedReg_same w c answer)
  have hbehind : Behind (failedReg w c answer) pre.reverse c' ↔ Behind r pre c' := by
    rw [behind_reverse]
    simp only [Behind, hsame.active]
  simp only [h.state c', hbehind, hsame.hasComp, failedReg_comp, hw.state c']
  by_cases hin : ActiveIn r pre c'
  · have hb : Behind r pre c' := hin.2
    simp [hin, hb, hin.1, hfirst.hasComp hin]
  · simp [hin]

/-- The pause states after the way back. -/
theorem rollback_pause (hw : PausedUpTo r a pre w) (answer : PauseAnswer)
    (h : ResumedFrom (failedReg w c answer) pre.reverse r') (t : SlotId) :
    (r'.slot t).pauseState =
      if r.HasSlot t ∧ ∃ c' ∈ (r.slot t).active, Behind r pre c' ∧
        ((r.comp c').state = .active ∨ (r.comp c').state = .paused) then .none
      else if r.HasSlot t ∧ (r.slot t).active = some c then answer.leaves.getD (r.slot t).pauseState
      else (r.slot t).pauseState := by
  have hsame := hw.same.trans (failedReg_same w c answer)
  have hbehind : ∀ c', Behind (failedReg w c answer) pre.reverse c' ↔ Behind r pre c' := fun c' => by
    rw [behind_reverse]
    simp only [Behind, hsame.active]
  have hpaused : ∀ c', Behind r pre c' ∧ (w.reg.comp c').state = .paused ↔
      Behind r pre c' ∧ ((r.comp c').state = .active ∨ (r.comp c').state = .paused) := by
    intro c'
    refine and_congr_right fun hb => ?_
    rw [hw.state c']
    by_cases hin : ActiveIn r pre c'
    · simp [hin, hin.1]
    · have hnot : (r.comp c').state ≠ .active := fun hactive => hin ⟨hactive, hb⟩
      simp [hin, hnot]
  simp only [h.pause t, hbehind, hsame.hasSlot, hsame.active, failedReg_comp, hpaused,
    failedReg_pause, hw.same.hasSlot, hw.same.active]
  by_cases hresumed : r.HasSlot t ∧ ∃ c' ∈ (r.slot t).active, Behind r pre c' ∧
      ((r.comp c').state = .active ∨ (r.comp c').state = .paused)
  · rw [if_pos hresumed, if_pos hresumed]
  · have hkept : (w.reg.slot t).pauseState = (r.slot t).pauseState := by
      rw [hw.pause t, if_neg]
      rintro ⟨hslot, c', hc', hactive, hb⟩
      exact hresumed ⟨hslot, c', hc', hb, .inl hactive⟩
    rw [if_neg hresumed, if_neg hresumed, hkept]

/-- **The way back leads to where it began exactly from a clean state.** -/
theorem restored_rollback_iff (hw : PausedUpTo r a pre w) (hactive : (w.reg.comp c).state = .active)
    (hfirst : FirstFailure r a pre s c)
    (h : ResumedFrom (failedReg w c (a.askPause (r.comp c).ops c).2) pre.reverse r') :
    Restored r r' ↔ CleanRollback r a pre c := by
  have hstate := rollback_state hw hfirst _ h
  have hpause := rollback_pause hw _ h
  have hbehind : ¬ Behind r pre c :=
    fun hb => (hw.not_activeIn hactive).1 ⟨(hw.not_activeIn hactive).2, hb⟩
  rw [((hw.same.trans (failedReg_same w c _)).trans h.same).restored_iff]
  constructor
  · rintro ⟨hs, hp⟩
    constructor
    · intro c' hb hpaused hcomp
      have := hs c'
      rw [hstate, if_pos ⟨hb, hpaused, hcomp⟩, hpaused] at this
      cases this
    · intro c' hb hst t hslot hbound
      rw [← hp t, hpause, if_pos ⟨hslot, c', hbound, hb, hst⟩]
    · intro st hst t hslot hbound
      have hnot : ¬ (r.HasSlot t ∧ ∃ c' ∈ (r.slot t).active, Behind r pre c' ∧
          ((r.comp c').state = .active ∨ (r.comp c').state = .paused)) := by
        rintro ⟨-, c', hc', hb, -⟩
        rw [hbound, Option.mem_some_iff] at hc'
        exact hbehind (hc' ▸ hb)
      rw [← hp t, hpause, if_neg hnot, if_pos ⟨hslot, hbound⟩, Option.mem_def.mp hst, Option.getD_some]
  · intro hclean
    refine ⟨fun c' => ?_, fun t => ?_⟩
    · rw [hstate, if_neg]
      exact fun hc' => hclean.paused c' hc'.1 hc'.2.1 hc'.2.2
    · rw [hpause]
      split_ifs with hresumed hbound
      · obtain ⟨hslot, c', hc', hb, hst⟩ := hresumed
        exact (hclean.slots c' hb hst t hslot hc').symm
      · cases hleaves : (a.askPause (r.comp c).ops c).2.leaves with
        | none => rfl
        | some st => exact (hclean.failed st hleaves t hbound.1 hbound.2).symm
      · rfl

end Rollback

/-! ### The whole call -/

/-- **A recomposition that fails restores the graph**, with what it has paused resumed, exactly when
it fails before it pauses anything or the state before the call is clean for the slot where it
fails. -/
theorem recompose_failure_restores_iff (plan : Option RecompPlan) (r : Registry) (a : Answers)
    (ha : ResumeAgrees a) (hfail : (FwCall.run r (.recompose plan) a).2 ≠ nxOk) :
    Restored r (FwCall.next r (.recompose plan, a)) ↔
      ∀ p order pre s post c, plan = some p → Ordered r p order → order = pre ++ s :: post →
        FirstFailure r a pre s c → CleanRollback r a pre c := by
  unfold FwCall.next FwCall.run FwCall.prog at *
  dsimp only at *
  rcases nxRecompose_cases plan ⟨r, a⟩ with ⟨⟨e, hrun⟩, hnone⟩ | ⟨p, order, rfl, hord, hrun⟩
  · rw [hrun]
    refine iff_of_true (Restored.refl r) ?_
    rintro p order - - - - hp hord - -
    exact absurd hord (hnone p order hp)
  · rw [hrun] at hfail ⊢
    have hpaused : (Prog.run graphStep (pauseSlots [] order) ⟨r, a⟩).2 ≠ nxOk := by
      by_contra hok
      exact hfail (by rw [if_neg (not_not.mpr hok)])
    rw [if_pos hpaused]
    rcases pauseSlots_run order [] ⟨r, a⟩ (pausedUpTo_nil r a) (by simp) with
      ⟨w, hok, -⟩ | ⟨pre, s, post, c, w, rfl, hfirst, hw, hactive, hout⟩
    · rw [List.reverse_nil] at hok
      exact absurd (by rw [hok]) hpaused
    · rw [List.nil_append] at hfirst hw hout
      have hfails := (hw.pauseFails_iff hactive).mpr hfirst.2.1
      have hback := resume_run pre.reverse (Prog.run graphStep (nxComponentPause c) w).1 (by
        rw [run_pause_fails_reg hfails]
        exact (hw.resumeAgrees ha).askPause _ c)
      rw [List.reverse_nil] at hout
      rw [hout, restored_rollback_iff hw hactive hfirst]
      · constructor
        · rintro hclean p' order' pre' s' post' c' ⟨⟩ hord' rfl hfirst'
          have heq : pre ++ s :: post = pre' ++ s' :: post' :=
            Except.ok.inj (hord.2.2.symm.trans hord'.2.2)
          obtain ⟨rfl, rfl⟩ := hfirst.unique hfirst' heq
          exact hclean
        · intro hclean
          exact hclean p _ pre s post c rfl hord rfl hfirst
      · rw [run_pause_fails_reg hfails, hw.askPause_eq hactive] at hback
        rw [run_pause_fails_reg hfails, hw.askPause_eq hactive]
        exact hback

/-- Slots `1` and `2` are bound to components `7` and `8`, which are active; `9` and `10` are
ready. -/
def twoActive : List FwCall :=
  [.reg (.slotRegister (some 1) true), .reg (.slotRegister (some 2) true),
    .reg (.componentRegister (some 7) true), .reg (.componentRegister (some 8) true), .reg
      (.componentRegister (some 9) true),
    .reg (.componentRegister (some 10) true), .verb .init (some 7), .verb .init (some 8), .verb
      .init (some 9),
    .verb .init (some 10), .reg (.slotSwap (some 1) (some 7)), .reg (.slotSwap (some 2) (some 8)),
    .verb .enable (some 7), .verb .enable (some 8)]

/-- The graph after these calls and others, all with agreeable answers. -/
def twoActiveThen (calls : List FwCall) : Registry :=
  runFrom FwCall.next (bootRegistry (fun s => { name := some (toString s) })
    fun c => { manifestId := some "m", instanceId := some (toString c), ops := [.pause] })
    ((twoActive ++ calls).map fun call => (call, agreeable))

/-- Component `8` will not be paused. -/
def eightRefuses : Answers := Function.update agreeable (.op .pause 8) fun _ => Err.ebusy.code

/-- A plan to put new components in both slots. -/
def replaceBoth : RecompPlan :=
  { changes := [⟨some 1, .replace, some 9, false⟩, ⟨some 2, .replace, some 10, false⟩] }

theorem eightRefuses_resumeAgrees : ResumeAgrees eightRefuses := by
  intro c k
  constructor
  · rfl
  · have hne : FwOp.op .resume c ≠ .op .pause 8 := by simp
    simp only [eightRefuses, Function.update_of_ne hne]
    rfl

/-- With both components active, the refusal of the second leaves no trace. -/
theorem recompose_refused_restored :
    (FwCall.run (twoActiveThen []) (.recompose (some replaceBoth)) eightRefuses).2 = Err.ebusy.code ∧
      Restored (twoActiveThen [])
      (FwCall.next (twoActiveThen []) (.recompose (some replaceBoth), eightRefuses)) := by
  have hrc : (FwCall.run (twoActiveThen []) (.recompose (some replaceBoth)) eightRefuses).2 =
      Err.ebusy.code := by
    decide +kernel
  refine ⟨hrc, (recompose_failure_restores_iff _ _ _ eightRefuses_resumeAgrees
    (by rw [hrc]; simp)).mpr ?_⟩
  rintro p order pre s post c ⟨⟩ ⟨-, -, horder⟩ heq hfirst
  have horder' : buildPauseOrder (twoActiveThen []) replaceBoth.changedSlots
      replaceBoth.connections = .ok [1, 2] := by
    decide +kernel
  obtain rfl : [1, 2] = order := Except.ok.inj (horder'.symm.trans horder)
  have h7 : ((twoActiveThen []).slot 1).active = some 7 := by decide +kernel
  have hopen : ∀ t ∈ (twoActiveThen []).nxGraphForeachSlot, ((twoActiveThen []).slot t).pauseState =
      .none := by
    decide +kernel
  match pre, heq with
  | [], heq =>
    obtain ⟨rfl, -⟩ := List.cons.inj heq
    obtain rfl : 7 = c := Option.some.inj (h7.symm.trans hfirst.1)
    exact absurd hfirst.2.1 (by decide +kernel)
  | [t], heq =>
    obtain ⟨rfl, htail⟩ := List.cons.inj heq
    obtain ⟨rfl, -⟩ := List.cons.inj htail
    have h8 : ((twoActiveThen []).slot 2).active = some 8 := by decide +kernel
    obtain rfl : 8 = c := Option.some.inj (h8.symm.trans hfirst.1)
    refine ⟨fun c' hb hpaused => ?_, fun c' _ _ t ht _ => hopen t ht, fun st hst t ht _ => ?_⟩
    · obtain rfl : 7 = c' := by simpa [Behind, h7] using hb
      exact absurd hpaused (by decide +kernel)
    · have hleaves : (eightRefuses.askPause ((twoActiveThen []).comp 8).ops 8).2.leaves =
        some .none := by decide +kernel
      rw [hleaves, Option.mem_some_iff] at hst
      exact hst ▸ hopen t ht
  | t :: t' :: pre, heq =>
    have := congrArg List.length heq
    simp at this

/-- A component that was paused before the call is active after it, and its slot is open. -/
theorem recompose_resumes_paused :
    let r := twoActiveThen [.verb .pause (some 7)]
    let res := FwCall.run r (.recompose (some replaceBoth)) eightRefuses
    (r.comp 7).state = .paused ∧ (r.slot 1).pauseState = .done ∧ res.2 = Err.ebusy.code ∧
      (res.1.reg.comp 7).state = .active ∧ (res.1.reg.slot 1).pauseState = .none := by
  decide +kernel

end Nonux.Framework
