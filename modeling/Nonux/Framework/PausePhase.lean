import Nonux.Framework.Recompose

/-!
# Pausing for a recomposition, and taking it back

`nx_recompose` pauses the components behind the slots of its order one after the other. When a
pause fails it goes back over the slots it has dealt with and resumes every component it finds
paused there.

`pauseSlots_run` says what the pausing has done when it comes to the end, or when it fails; and
`resume_run` says what the way back does. The answers of the hooks and components are arbitrary,
but for the resuming, which is taken to succeed on the way back.
-/

namespace Nonux.Framework

open Nonux.Lib List Registry

/-! ### What pausing and resuming leave alone -/

/-- The same slots, components and connections, in whatever states, and whatever is bound to
what. -/
structure SameLayout (r r' : Registry) : Prop where
  slots : r'.slots = r.slots
  components : r'.components = r.components
  connections : r'.connections = r.connections
  conn : r'.conn = r.conn
  ops : ∀ c, (r'.comp c).ops = (r.comp c).ops
  nextConn : r'.nextConn = r.nextConn

namespace SameLayout

variable {r r' r'' : Registry}

theorem refl (r : Registry) : SameLayout r r := ⟨rfl, rfl, rfl, rfl, fun _ => rfl, rfl⟩

theorem trans (h : SameLayout r r') (h' : SameLayout r' r'') : SameLayout r r'' where
  slots := h'.slots.trans h.slots
  components := h'.components.trans h.components
  connections := h'.connections.trans h.connections
  conn := h'.conn.trans h.conn
  ops c := (h'.ops c).trans (h.ops c)
  nextConn := h'.nextConn.trans h.nextConn

theorem hasSlot (h : SameLayout r r') (s : SlotId) : r'.HasSlot s ↔ r.HasSlot s := by
  unfold Registry.HasSlot nxGraphForeachSlot
  rw [h.slots]

theorem hasComp (h : SameLayout r r') (c : CompId) : r'.HasComp c ↔ r.HasComp c := by
  unfold Registry.HasComp nxGraphForeachComponent
  rw [h.components]

theorem setState (r : Registry) (c : CompId) (st : LifecycleState) : SameLayout r (r.setState c st) := by
  refine r.setState_inv c st (.refl r) fun _ gen log => ⟨rfl, rfl, rfl, rfl, fun c' => ?_, rfl⟩
  by_cases hc : c' = c
  · simp [hc]
  · simp [hc]

end SameLayout

/-- The same graph, but for the pause states of slots and the states of components. -/
structure SameGraph (r r' : Registry) : Prop extends SameLayout r r' where
  active : ∀ s, (r'.slot s).active = (r.slot s).active

namespace SameGraph

variable {r r' r'' : Registry}

theorem refl (r : Registry) : SameGraph r r := ⟨.refl r, fun _ => rfl⟩

theorem trans (h : SameGraph r r') (h' : SameGraph r' r'') : SameGraph r r'' :=
  ⟨h.toSameLayout.trans h'.toSameLayout, fun s => (h'.active s).trans (h.active s)⟩

theorem pauseBound (r : Registry) (c : CompId) (st : SlotPauseState) : SameGraph r (r.pauseBound c st) :=
  ⟨⟨rfl, rfl, rfl, rfl, fun _ => rfl, rfl⟩, fun s => r.pauseBound_active c st s⟩

theorem setState (r : Registry) (c : CompId) (st : LifecycleState) : SameGraph r (r.setState c st) :=
  ⟨.setState r c st, fun s => by rw [setState_slot]⟩

theorem setPause (r : Registry) (s : SlotId) (st : SlotPauseState) : SameGraph r (r.setPause s st) := by
  by_cases hs : r.HasSlot s
  · rw [setPause_of_hasSlot hs]
    refine ⟨⟨rfl, rfl, rfl, rfl, fun _ => rfl, rfl⟩, fun t => ?_⟩
    by_cases hts : t = s
    · simp [modifySlot, hts]
    · simp [modifySlot, hts]
  · rw [setPause_of_not_hasSlot hs]
    exact refl r

end SameGraph

theorem setPause_pauseState (r : Registry) (s : SlotId) (st : SlotPauseState) (t : SlotId) :
    ((r.setPause s st).slot t).pauseState = if t = s ∧
    r.HasSlot s then st else (r.slot t).pauseState := by
  by_cases hs : r.HasSlot s
  · rw [setPause_of_hasSlot hs]
    by_cases hts : t = s
    · simp [modifySlot, hts, hs]
    · simp [modifySlot, hts]
  · rw [setPause_of_not_hasSlot hs]
    simp [hs]

@[simp] theorem setPause_comp (r : Registry) (s : SlotId) (st : SlotPauseState) :
    (r.setPause s st).comp = r.comp := by
  by_cases hs : r.HasSlot s
  · rw [setPause_of_hasSlot hs]
    rfl
  · rw [setPause_of_not_hasSlot hs]

theorem pauseBound_pauseState (r : Registry) (c : CompId) (st : SlotPauseState) (s : SlotId) :
    ((r.pauseBound c st).slot s).pauseState =
      if r.HasSlot s ∧ (r.slot s).active = some c then st else (r.slot s).pauseState := by
  rw [pauseBound_slot]
  split_ifs <;> rfl

theorem setState_state (r : Registry) (c : CompId) (st : LifecycleState) (c' : CompId) :
    ((r.setState c st).comp c').state = if c' = c ∧ r.HasComp c then st else (r.comp c').state := by
  by_cases hc : r.HasComp c
  · rw [r.setState_comp c st hc]
    by_cases heq : c' = c
    · simp [heq, hc]
    · simp [heq]
  · rw [r.setState_of_not_hasComp c st hc]
    simp [hc]

/-! ### The questions of a pause -/

/-- The question is one that pausing `c` asks. -/
def FwOp.AsksPause (c : CompId) (o : FwOp) : Prop :=
  o = .hook .pause c .paused ∨ o = .op .pauseHook c ∨ o = .deadlineExceeded c ∨ o = .op .pause c

variable {c : CompId} {o : FwOp}

theorem askPauseHook_of_ne (a : Answers) (ops : List CompOp) (hop : o ≠ .op .pauseHook c)
    (hdeadline : o ≠ .deadlineExceeded c) : (a.askPauseHook ops c).1 o = a o := by
  have hboth : ((a.after (.op .pauseHook c)).after (.deadlineExceeded c)) o = a o :=
    (Answers.after_of_ne hdeadline).trans (Answers.after_of_ne hop)
  unfold Answers.askPauseHook
  split_ifs
  · exact hboth
  · exact hboth
  · exact Answers.after_of_ne hop
  · rfl

theorem askOp_of_ne (a : Answers) (ops : List CompOp) {k : CompOp} (h : o ≠ .op k c) :
    (a.askOp ops k c).1 o = a o := by
  unfold Answers.askOp
  split_ifs
  · exact Answers.after_of_ne h
  · rfl

/-- Pausing a component uses up no answers but its own. -/
theorem askPause_of_not_asks (a : Answers) (ops : List CompOp) (h : ¬ o.AsksPause c) :
    (a.askPause ops c).1 o = a o := by
  have hne := h
  simp only [FwOp.AsksPause, not_or] at hne
  have h₁ : a.after (.hook .pause c .paused) o = a o := Answers.after_of_ne hne.1
  have h₂ := (askPauseHook_of_ne (a.after (.hook .pause c .paused)) ops hne.2.1 hne.2.2.1).trans h₁
  have h₃ := (askOp_of_ne ((a.after (.hook .pause c .paused)).askPauseHook ops c).1 ops
    hne.2.2.2).trans h₂
  unfold Answers.askPause
  dsimp only
  split_ifs
  · exact h₁
  · exact h₂
  · exact h₃
  · exact h₃

/-- The answers agree on the questions of a pause. -/
def Answers.AgreeOnPause (c : CompId) (a a' : Answers) : Prop := ∀ o : FwOp, o.AsksPause c → a o = a' o

variable {a : Answers}

theorem Answers.AgreeOnPause.after {a' : Answers} (h : a.AgreeOnPause c a') {q : FwOp}
    (hq : q.AsksPause c) : (a.after q).AgreeOnPause c (a'.after q) := by
  intro o ho
  by_cases heq : o = q
  · subst heq
    simp only [Answers.after, Function.update_self, h o ho]
  · rw [Answers.after_of_ne heq, Answers.after_of_ne heq, h o ho]

/-- How a pause is answered depends on the questions of that pause only. -/
theorem askPause_congr {a' : Answers} (h : a.AgreeOnPause c a') (ops : List CompOp) :
    (a.askPause ops c).2 = (a'.askPause ops c).2 := by
  have hhook : a (.hook .pause c .paused) = a' (.hook .pause c .paused) := h _ (.inl rfl)
  have h₁ := h.after (q := .hook .pause c .paused) (.inl rfl)
  have hph := h₁ (.op .pauseHook c) (.inr (.inl rfl))
  have hdl := h₁ (.deadlineExceeded c) (.inr (.inr (.inl rfl)))
  have hhooked : ((a.after (.hook .pause c .paused)).askPauseHook ops c).2 =
      ((a'.after (.hook .pause c .paused)).askPauseHook ops c).2 := by
    simp only [Answers.askPauseHook, hph, hdl]
    split_ifs <;> rfl
  have hpause : ((a.after (.hook .pause c .paused)).askPauseHook ops c).1 (.op .pause c) =
      ((a'.after (.hook .pause c .paused)).askPauseHook ops c).1 (.op .pause c) := by
    rw [askPauseHook_of_ne _ ops (by simp) (by simp), askPauseHook_of_ne _ ops (by simp) (by simp)]
    exact h₁ (.op .pause c) (.inr (.inr (.inr rfl)))
  simp only [Answers.askPause, hhook, hhooked, Answers.askOp, hpause]
  split_ifs <;> rfl

theorem askPause_refused_ne {ops : List CompOp} {rc : ℤ} (h : (a.askPause ops c).2 = .refused rc) :
    rc ≠ nxOk := by
  unfold Answers.askPause at h
  dsimp only at h
  split_ifs at h with _ hhooked hpaused
  · cases h
    exact hhooked
  · cases h
    exact hpaused

/-! ### One pause -/

/-- Pausing an active component fails: a hook aborts, the component refuses, or it is not
registered. -/
def PauseFails (r : Registry) (a : Answers) (c : CompId) : Prop :=
  (r.comp c).state = .active ∧ ((a.askPause (r.comp c).ops c).2 ≠ .agreed ∨ ¬ r.HasComp c)

instance (r : Registry) (a : Answers) (c : CompId) : Decidable (PauseFails r a c) :=
  inferInstanceAs (Decidable (_ ∧ _))

variable {w : World}

/-- A pause that succeeds. -/
theorem run_pause_ok (hactive : (w.reg.comp c).state = .active) (hok : ¬ PauseFails w.reg w.answers c) :
    Prog.run graphStep (nxComponentPause c) w =
      (⟨(w.reg.pauseBound c .done).setState c .paused, (w.answers.askPause (w.reg.comp c).ops c).1⟩,
        nxOk) := by
  obtain ⟨hagreed, hcomp⟩ : (w.answers.askPause (w.reg.comp c).ops c).2 = .agreed ∧ w.reg.HasComp c := by
    simpa [PauseFails, hactive] using hok
  rw [run_nxComponentPause, if_neg (not_not.mpr hactive)]
  rcases hask : w.answers.askPause (w.reg.comp c).ops c with ⟨a, answer⟩
  rw [hask] at hagreed
  subst hagreed
  simp [World.setState, setStateCode, hcomp]

/-- A pause that fails returns an error. -/
theorem run_pause_fails (h : PauseFails w.reg w.answers c) :
    (Prog.run graphStep (nxComponentPause c) w).2 ≠ nxOk := by
  rw [run_nxComponentPause, if_neg (not_not.mpr h.1)]
  rcases hask : w.answers.askPause (w.reg.comp c).ops c with ⟨a, answer⟩
  cases answer with
  | aborted => exact Err.code_ne_nxOk .eabort
  | refused rc => exact askPause_refused_ne (by rw [hask])
  | agreed =>
    have hcomp : ¬ w.reg.HasComp c := h.2.resolve_left (by rw [hask]; simp)
    simp [World.setState, setStateCode, hcomp]

/-! ### The slots of the order -/

/-- The component is active and behind one of the slots. -/
def ActiveIn (r : Registry) (slots : List SlotId) (c : CompId) : Prop :=
  (r.comp c).state = .active ∧ ∃ t ∈ slots, (r.slot t).active = some c

instance (r : Registry) (slots : List SlotId) (c : CompId) : Decidable (ActiveIn r slots c) :=
  inferInstanceAs (Decidable (_ ∧ _))

/-- What is there when the active components behind the slots `slots` of `r` have been paused. -/
structure PausedUpTo (r : Registry) (a : Answers) (slots : List SlotId) (w : World) : Prop where
  same : SameGraph r w.reg
  state : ∀ c, (w.reg.comp c).state = if ActiveIn r slots c then .paused else (r.comp c).state
  pause : ∀ s, (w.reg.slot s).pauseState =
    if r.HasSlot s ∧ ∃ c ∈ (r.slot s).active, ActiveIn r slots c then .done else (r.slot s).pauseState
  answers : ∀ o : FwOp, (∀ c, ActiveIn r slots c → ¬ o.AsksPause c) → w.answers o = a o

theorem pausedUpTo_nil (r : Registry) (a : Answers) : PausedUpTo r a [] ⟨r, a⟩ := by
  refine ⟨.refl r, fun c => ?_, fun s => ?_, fun _ _ => rfl⟩ <;> simp [ActiveIn]

variable {r : Registry} {slots : List SlotId}

/-- A component that was not active is as it was. -/
theorem PausedUpTo.state_of_ne (h : PausedUpTo r a slots w) (hc : (r.comp c).state ≠ .active) :
    (w.reg.comp c).state = (r.comp c).state := by
  rw [h.state, if_neg fun hin => hc hin.1]

variable {s : SlotId}

/-- Slots with nothing to pause behind them do not matter. -/
theorem PausedUpTo.skip (h : PausedUpTo r a slots w)
    (hs : ∀ c, (r.slot s).active = some c → (w.reg.comp c).state ≠ .active) :
    PausedUpTo r a (slots ++ [s]) w := by
  have hiff : ∀ c, ActiveIn r (slots ++ [s]) c ↔ ActiveIn r slots c := by
    intro c
    constructor
    · rintro ⟨hactive, t, ht, hbound⟩
      rcases mem_append.mp ht with ht | ht
      · exact ⟨hactive, t, ht, hbound⟩
      · rw [mem_singleton.mp ht] at hbound
        by_contra hno
        have hstate := h.state c
        rw [if_neg hno] at hstate
        exact hs c hbound (hstate.trans hactive)
    · rintro ⟨hactive, t, ht, hbound⟩
      exact ⟨hactive, t, mem_append_left _ ht, hbound⟩
  obtain ⟨hsame, hstate, hpause, hanswers⟩ := h
  exact ⟨hsame, by simpa only [hiff] using hstate, by simpa only [hiff] using hpause,
    by simpa only [hiff] using hanswers⟩

theorem PausedUpTo.not_activeIn (h : PausedUpTo r a slots w) (hactive : (w.reg.comp c).state = .active) :
    ¬ ActiveIn r slots c ∧ (r.comp c).state = .active := by
  have hstate := h.state c
  rw [hactive] at hstate
  split_ifs at hstate with hin
  exact ⟨hin, hstate.symm⟩

/-- Different components are asked different questions. -/
theorem FwOp.AsksPause.unique {c' : CompId} (h : o.AsksPause c) (h' : o.AsksPause c') : c = c' := by
  rcases h with rfl | rfl | rfl | rfl <;> simpa [FwOp.AsksPause] using h'

/-- How a pause is going to be answered is as it was at the start. -/
theorem PausedUpTo.askPause_eq (h : PausedUpTo r a slots w) (hactive : (w.reg.comp c).state = .active) :
    (w.answers.askPause (w.reg.comp c).ops c).2 = (a.askPause (r.comp c).ops c).2 := by
  rw [h.same.ops]
  refine askPause_congr (fun o ho => h.answers o fun c' hc' ho' => ?_) _
  exact (h.not_activeIn hactive).1 (ho.unique ho' ▸ hc')

theorem PausedUpTo.pauseFails_iff (h : PausedUpTo r a slots w)
    (hactive : (w.reg.comp c).state = .active) :
    PauseFails w.reg w.answers c ↔ PauseFails r a c := by
  simp only [PauseFails, hactive, (h.not_activeIn hactive).2, h.askPause_eq hactive, h.same.hasComp]

/-- One more slot. -/
theorem PausedUpTo.step (h : PausedUpTo r a slots w) (hs : (r.slot s).active = some c)
    (hactive : (w.reg.comp c).state = .active) (hcomp : r.HasComp c) :
    PausedUpTo r a (slots ++ [s])
      ⟨(w.reg.pauseBound c .done).setState c .paused, (w.answers.askPause (w.reg.comp c).ops c).1⟩ := by
  obtain ⟨hnew, hactive'⟩ := h.not_activeIn hactive
  have hiff : ∀ c', ActiveIn r (slots ++ [s]) c' ↔ ActiveIn r slots c' ∨ c' = c := by
    intro c'
    simp only [ActiveIn, mem_append, mem_singleton, or_and_right, exists_or, exists_eq_left, hs,
      Option.some.injEq, and_or_left]
    refine or_congr Iff.rfl ⟨fun hc => hc.2.symm, fun hc => ⟨hc ▸ hactive', hc.symm⟩⟩
  constructor
  · exact h.same.trans ((SameGraph.pauseBound _ c .done).trans (SameGraph.setState _ c .paused))
  · intro c'
    have hhas : (w.reg.pauseBound c .done).HasComp c := (h.same.hasComp c).mpr hcomp
    simp only [setState_state, pauseBound_comp, h.state c', hiff, hhas, and_true]
    by_cases hc : c' = c
    · simp [hc]
    · simp [hc]
  · intro t
    simp only [setState_slot, pauseBound_pauseState, h.pause t, h.same.hasSlot, h.same.active, hiff]
    by_cases hbound : (r.slot t).active = some c
    · simp [hbound, hnew]
    · have hne : ∀ c' ∈ (r.slot t).active, c' ≠ c := fun c' hc' heq => hbound (heq ▸ hc')
      have hsame : (∃ c' ∈ (r.slot t).active, ActiveIn r slots c' ∨ c' = c) ↔
          ∃ c' ∈ (r.slot t).active, ActiveIn r slots c' :=
        ⟨fun ⟨c', hc', hin⟩ => ⟨c', hc', hin.resolve_right (hne c' hc')⟩,
          fun ⟨c', hc', hin⟩ => ⟨c', hc', .inl hin⟩⟩
      simp only [hbound, and_false, if_false, hsame]
  · intro o ho
    dsimp only
    rw [askPause_of_not_asks _ _ (ho c ((hiff c).mpr (.inr rfl)))]
    exact h.answers o fun c' hc' => ho c' ((hiff c').mpr (.inl hc'))

/-- A first slot in the list where pausing fails, and what is behind it. -/
def FirstFailure (r : Registry) (a : Answers) (pre : List SlotId) (s : SlotId) (c : CompId) : Prop :=
  (r.slot s).active = some c ∧ PauseFails r a c ∧
    ∀ t ∈ pre, ∀ c' ∈ (r.slot t).active, ¬ PauseFails r a c'

/-- There is one first slot where pausing fails. -/
theorem FirstFailure.unique {pre pre' post post' : List SlotId} {s' : SlotId} {c' : CompId}
    (h : FirstFailure r a pre s c) (h' : FirstFailure r a pre' s' c')
    (heq : pre ++ s :: post = pre' ++ s' :: post') : pre = pre' ∧ c = c' := by
  obtain ⟨hs, hfails, hbefore⟩ := h
  obtain ⟨hs', hfails', hbefore'⟩ := h'
  rcases append_eq_append_iff.mp heq with ⟨l, rfl, hl⟩ | ⟨l, rfl, hl⟩
  · cases l with
    | nil =>
      obtain ⟨rfl, -⟩ := List.cons.inj hl
      exact ⟨(append_nil _).symm, Option.some.inj (hs.symm.trans hs')⟩
    | cons t l =>
      obtain ⟨rfl, -⟩ := List.cons.inj hl
      exact absurd hfails (hbefore' s (by simp) c hs)
  · cases l with
    | nil =>
      obtain ⟨rfl, -⟩ := List.cons.inj hl
      exact ⟨append_nil _, Option.some.inj (hs.symm.trans hs')⟩
    | cons t l =>
      obtain ⟨rfl, -⟩ := List.cons.inj hl
      exact absurd hfails' (hbefore s' (by simp) c' hs')

/-- How the pausing ends when the slots `pre` are behind it and `rest` ahead: all components are
paused, or it stops at the first slot where a pause fails and goes back. -/
def PauseOutcome (r : Registry) (a : Answers) (pre rest : List SlotId) (res : World × ℤ) : Prop :=
  (∃ w, res = (w, nxOk) ∧ PausedUpTo r a (pre ++ rest) w ∧
    ∀ t ∈ pre ++ rest, ∀ c ∈ (r.slot t).active, ¬ PauseFails r a c) ∨
  ∃ mid s post c w, rest = mid ++ s :: post ∧ FirstFailure r a (pre ++ mid) s c ∧
    PausedUpTo r a (pre ++ mid) w ∧ (w.reg.comp c).state = .active ∧
    res = ((Prog.run graphStep (Prog.forEach resumeIfPaused (pre ++ mid).reverse)
      (Prog.run graphStep (nxComponentPause c) w).1).1, (Prog.run graphStep (nxComponentPause c) w).2)

theorem PauseOutcome.cons {pre rest : List SlotId} {res : World × ℤ}
    (h : PauseOutcome r a (pre ++ [s]) rest res) : PauseOutcome r a pre (s :: rest) res := by
  rcases h with ⟨w, hres, hw, hall⟩ | ⟨mid, t, post, c, w, rfl, hfirst, hw, hactive, hres⟩
  · exact .inl ⟨w, hres, by simpa using hw, by simpa using hall⟩
  · rw [append_assoc, singleton_append] at hfirst hw hres
    exact .inr ⟨s :: mid, t, post, c, w, rfl, hfirst, hw, hactive, hres⟩

/-- **The pausing of a recomposition.** -/
theorem pauseSlots_run (rest pre : List SlotId) (w : World) (h : PausedUpTo r a pre w)
    (hpre : ∀ t ∈ pre, ∀ c ∈ (r.slot t).active, ¬ PauseFails r a c) :
    PauseOutcome r a pre rest (Prog.run graphStep (pauseSlots pre.reverse rest) w) := by
  induction rest generalizing pre w with
  | nil => exact .inl ⟨w, rfl, by simpa using h, by simpa using hpre⟩
  | cons s rest ih =>
    have hnext : ∀ w', PausedUpTo r a (pre ++ [s]) w' → (∀ c ∈ (r.slot s).active, ¬ PauseFails r a c) →
        PauseOutcome r a pre (s :: rest)
          (Prog.run graphStep (pauseSlots (s :: pre.reverse) rest) w') := by
      intro w' hw' hs
      have hout := ih (pre ++ [s]) w' hw' (by simpa [or_imp, forall_and] using ⟨hpre, hs⟩)
      rw [reverse_append] at hout
      exact hout.cons
    rw [pauseSlots, run_readRegistry_bind]
    have hsame := h.same.active s
    cases hs : (r.slot s).active with
    | none =>
      rw [hs] at hsame
      simp only [hsame]
      exact hnext w (h.skip (by simp [hs])) (by simp [hs])
    | some c =>
      rw [hs] at hsame
      simp only [hsame, Prog.run_ite]
      by_cases hactive : (w.reg.comp c).state = .active
      · rw [if_neg (not_not.mpr hactive), Prog.run_bind, Prog.run_ite]
        by_cases hfails : PauseFails r a c
        · -- The pause fails, and the slots are gone back over.
          rw [if_pos (run_pause_fails ((h.pauseFails_iff hactive).mpr hfails)), Prog.run_bind,
            Prog.run_pure]
          exact .inr ⟨[], s, rest, c, w, rfl, ⟨hs, hfails, by simpa using hpre⟩,
            by simpa using h, hactive, by simp⟩
        · have hcomp : r.HasComp c := by
            by_contra hno
            exact hfails ⟨(h.not_activeIn hactive).2, .inr hno⟩
          rw [run_pause_ok hactive (mt (h.pauseFails_iff hactive).mp hfails), if_neg (not_not.mpr rfl)]
          exact hnext _ (h.step hs hactive hcomp) (by simpa [hs] using hfails)
      · rw [if_pos hactive]
        refine hnext w (h.skip fun c' hc' => ?_) fun c' hc' hfails => ?_
        · rw [hs, Option.some.injEq] at hc'
          exact hc' ▸ hactive
        · -- It was active, so it has been paused for a slot before.
          obtain rfl : c = c' := by simpa [hs] using hc'
          have hin : ActiveIn r pre c := by
            by_contra hno
            have hstate := h.state c
            rw [if_neg hno] at hstate
            exact hactive (hstate.trans hfails.1)
          obtain ⟨-, t, ht, hbound⟩ := hin
          exact hpre t ht c hbound hfails

/-- The pausing succeeds when every active component behind the slots is paused. -/
theorem pauseSlots_ok {order : List SlotId} (h : (Prog.run graphStep (pauseSlots [] order) w).2 = nxOk) :
    PausedUpTo w.reg w.answers order (Prog.run graphStep (pauseSlots [] order) w).1 := by
  rcases pauseSlots_run order [] w (pausedUpTo_nil w.reg w.answers) (by simp) with
    ⟨w', hrun, hpaused, -⟩ | ⟨mid, s, post, c, w', -, hfirst, hw', hactive, hrun⟩
  · rw [reverse_nil] at hrun
    rw [hrun]
    exact hpaused
  · rw [reverse_nil] at hrun
    rw [hrun] at h
    exact absurd h (run_pause_fails ((hw'.pauseFails_iff hactive).mpr hfirst.2.1))

/-! ### The way back -/

/-- Hooks let every resume pass, and components agree to it. -/
def ResumeAgrees (a : Answers) : Prop :=
  ∀ c k, a (.hook .resume c .active) k = false ∧ a (.op .resume c) k = nxOk

theorem ResumeAgrees.after (h : ResumeAgrees a) (o : FwOp) : ResumeAgrees (a.after o) := by
  intro c k
  constructor
  · by_cases heq : .hook .resume c .active = o
    · subst heq
      simpa [Answers.after] using (h c (k + 1)).1
    · rw [Answers.after_of_ne heq]
      exact (h c k).1
  · by_cases heq : .op .resume c = o
    · subst heq
      simpa [Answers.after] using (h c (k + 1)).2
    · rw [Answers.after_of_ne heq]
      exact (h c k).2

theorem ResumeAgrees.askOp (h : ResumeAgrees a) (ops : List CompOp) (o : CompOp) (c : CompId) :
    ResumeAgrees (a.askOp ops o c).1 := by
  unfold Answers.askOp
  split_ifs
  · exact h.after _
  · exact h

theorem ResumeAgrees.askPause (h : ResumeAgrees a) (ops : List CompOp) (c : CompId) :
    ResumeAgrees (a.askPause ops c).1 := by
  intro c' k
  rw [askPause_of_not_asks a ops (by simp [FwOp.AsksPause]), askPause_of_not_asks a ops
    (by simp [FwOp.AsksPause])]
  exact h c' k

theorem PausedUpTo.resumeAgrees (h : PausedUpTo r a slots w) (ha : ResumeAgrees a) :
    ResumeAgrees w.answers := by
  intro c k
  rw [h.answers _ fun c' _ => by simp [FwOp.AsksPause], h.answers _ fun c' _ => by simp [FwOp.AsksPause]]
  exact ha c k

/-- A resume that succeeds. -/
theorem run_resume_ok (hpaused : (w.reg.comp c).state = .paused) (ha : ResumeAgrees w.answers) :
    ∃ a, ResumeAgrees a ∧ (Prog.run graphStep (nxComponentResume c) w).1 =
      ⟨(w.reg.pauseBound c .none).setState c .active, a⟩ := by
  have hhook := (ha c 0).1
  have hop : ((w.answers.after (.hook .resume c .active)).askOp (w.reg.comp c).ops .resume c).2 =
      nxOk := by
    unfold Answers.askOp
    split_ifs
    · exact (ha.after (.hook .resume c .active) c 0).2
    · rfl
  refine ⟨_, (ha.after (.hook .resume c .active)).askOp (w.reg.comp c).ops .resume c, ?_⟩
  rw [run_nxComponentResume, if_neg (not_not.mpr hpaused), Answers.consult,
    if_neg (by simp [hhook]), World.settle, if_neg (not_not.mpr hop)]
  rfl

/-- The component is behind one of the slots. -/
def Behind (r : Registry) (slots : List SlotId) (c : CompId) : Prop :=
  ∃ t ∈ slots, (r.slot t).active = some c

instance (r : Registry) (slots : List SlotId) (c : CompId) : Decidable (Behind r slots c) :=
  inferInstanceAs (Decidable (∃ t ∈ slots, _))

/-- The paused components behind the slots have been resumed. -/
structure ResumedFrom (r : Registry) (slots : List SlotId) (r' : Registry) : Prop where
  same : SameGraph r r'
  state : ∀ c, (r'.comp c).state =
    if Behind r slots c ∧ (r.comp c).state = .paused ∧ r.HasComp c then .active else (r.comp c).state
  pause : ∀ s, (r'.slot s).pauseState =
    if r.HasSlot s ∧ ∃ c ∈ (r.slot s).active, Behind r slots c ∧ (r.comp c).state = .paused then .none
    else (r.slot s).pauseState

theorem resumedFrom_nil (r : Registry) : ResumedFrom r [] r := by
  refine ⟨.refl r, fun c => ?_, fun s => ?_⟩ <;> simp [Behind]

variable {t : SlotId}

theorem behind_cons : Behind r (t :: slots) c ↔ (r.slot t).active = some c ∨ Behind r slots c := by
  simp [Behind]

/-- A slot with nothing to resume behind it does not matter. -/
theorem ResumedFrom.skip {r' : Registry} (h : ResumedFrom r slots r')
    (ht : ∀ c, (r.slot t).active = some c → (r.comp c).state ≠ .paused) :
    ResumedFrom r (t :: slots) r' := by
  have hiff : ∀ c, (Behind r (t :: slots) c ∧ (r.comp c).state = .paused) ↔
      Behind r slots c ∧ (r.comp c).state = .paused := by
    intro c
    rw [behind_cons]
    exact ⟨fun hc => ⟨hc.1.resolve_left fun hbound => ht c hbound hc.2, hc.2⟩,
      fun hc => ⟨.inr hc.1, hc.2⟩⟩
  obtain ⟨hsame, hstate, hpause⟩ := h
  refine ⟨hsame, ?_, by simpa only [hiff] using hpause⟩
  simpa only [← and_assoc, hiff] using hstate

/-- One more slot, gone back over first. -/
theorem ResumedFrom.step {r' : Registry} (hbound : (r.slot t).active = some c)
    (hpaused : (r.comp c).state = .paused)
    (h : ResumedFrom ((r.pauseBound c .none).setState c .active) slots r') :
    ResumedFrom r (t :: slots) r' := by
  have hfirst : SameGraph r ((r.pauseBound c .none).setState c .active) :=
    (SameGraph.pauseBound r c .none).trans (SameGraph.setState _ c .active)
  have hbehind : ∀ c', Behind ((r.pauseBound c .none).setState c .active) slots c' ↔
      Behind r slots c' := by
    intro c'
    simp only [Behind, hfirst.active]
  have hstate₁ : ∀ c', (((r.pauseBound c .none).setState c .active).comp c').state =
      if c' = c ∧ r.HasComp c then .active else (r.comp c').state := fun c' => by
    rw [setState_state]
    rfl
  refine ⟨hfirst.trans h.same, fun c' => ?_, fun s => ?_⟩
  · simp only [h.state c', hbehind, hfirst.hasComp, hstate₁, behind_cons, hbound, Option.some.injEq]
    by_cases hc : c' = c
    · subst hc
      by_cases hhas : r.HasComp c'
      · simp [hhas, hpaused]
      · simp [hhas]
    · simp [hc, Ne.symm hc]
  · simp only [h.pause s, hfirst.hasSlot, hbehind, hstate₁, setState_slot, pauseBound_pauseState,
      pauseBound_active, behind_cons, hbound]
    cases (r.slot s).active with
    | none => simp
    | some c' =>
      by_cases hc : c' = c
      · subst hc
        by_cases hslot : r.HasSlot s
        · simp [hslot, hpaused]
        · simp [hslot]
      · simp [hc, Ne.symm hc]

/-- **The way back**: the paused components behind the slots are resumed. -/
theorem resume_run (slots : List SlotId) (w : World) (ha : ResumeAgrees w.answers) :
    ResumedFrom w.reg slots (Prog.run graphStep (Prog.forEach resumeIfPaused slots) w).1.reg := by
  induction slots generalizing w with
  | nil => exact resumedFrom_nil w.reg
  | cons t slots ih =>
    rw [Prog.forEach, Prog.run_bind, resumeIfPaused, run_readRegistry_bind]
    cases ht : (w.reg.slot t).active with
    | none => exact (ih w ha).skip (by simp [ht])
    | some c =>
      simp only [Prog.run_ite]
      by_cases hpaused : (w.reg.comp c).state = .paused
      · obtain ⟨a, ha', hrun⟩ := run_resume_ok hpaused ha
        rw [if_pos hpaused, Prog.run_bind, Prog.run_pure, hrun]
        exact .step ht hpaused (ih ⟨_, a⟩ ha')
      · rw [if_neg hpaused, Prog.run_pure]
        refine (ih w ha).skip fun c' hc' => ?_
        rw [ht, Option.some.injEq] at hc'
        exact hc' ▸ hpaused

end Nonux.Framework
