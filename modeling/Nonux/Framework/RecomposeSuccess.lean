import Nonux.Framework.ResumePhase
import Nonux.Framework.RewirePhase
import Nonux.Framework.SwapPhase

/-!
# What a recomposition has done when it succeeds

`nx_recompose` returns `NX_OK` once all is paused: it looks at the outcome of nothing it does
afterwards. A new component may refuse to be enabled, a swap may fail since the slot or the
component is not registered, a connection may not be found, or there may be several.

`Recomposed` is what a plan asks for. Whether it is there after a recomposition that succeeds can be
told from the graph before, the plan, and how hooks, components and the allocator answer, if the
plan is `Simple`: it says one thing about a slot and about a pair of slots, and no component is
meant for two slots, or taken out of one and meant for another. Then it is `RecompPlan.Succeeds`
that has to hold (`recomposed_iff`).
-/

namespace Nonux.Framework

open Nonux.Lib List

/-! ### What is asked for -/

namespace RecompPlan

variable (plan : RecompPlan) (r : Registry) (a : Answers)

/-- The plan puts the component in the slot. -/
def Puts (s : SlotId) (n : CompId) : Prop := ∃ sc ∈ plan.changes, sc.replacement = some (s, n)

/-- The component is meant for the slot: the plan puts it there, or leaves it there. -/
def Meant (s : SlotId) (c : CompId) : Prop :=
  plan.Puts s c ∨ (∀ n, ¬ plan.Puts s n) ∧ (r.slot s).active = some c

end RecompPlan

/-- What a plan asks for is there: every replaced slot is bound to its new component, which is
active; no slot of the plan is paused; and the connections are removed, added and rewired. -/
structure Recomposed (plan : RecompPlan) (r : Registry) : Prop where
  replaced : ∀ s n, plan.Puts s n →
    (r.slot s).active = some n ∧ (r.comp n).state = .active ∧ (r.slot s).pauseState = .none
  opened : ∀ s ∈ plan.slots, (r.slot s).pauseState = .none
  removed : ∀ cc ∈ plan.connections, cc.action = .remove → r.modesBetween cc.fromSlot cc.toSlot = []
  tuned : ∀ cc ∈ plan.connections, cc.action = .add ∨ cc.action = .rewire →
    cc.mode ∈ r.modesBetween cc.fromSlot cc.toSlot

/-! ### The condition -/

namespace RecompPlan

variable (plan : RecompPlan) (r : Registry) (a : Answers)

/-- The plan says one thing about everything. -/
structure Simple : Prop where
  /-- No slot is changed twice. -/
  changes : plan.changedSlots.Nodup
  /-- No component is meant for two slots of the plan. -/
  apart : ∀ s ∈ plan.slots, ∀ t ∈ plan.slots, ∀ c, plan.Meant r s c → plan.Meant r t c → s = t
  /-- A component that is taken out of a slot is not meant for one. -/
  away : ∀ s n c, plan.Puts s n → (r.slot s).active = some c → ∀ t ∈ plan.slots, ¬ plan.Meant r t c
  /-- There are no two entries about the connections between the same slots. -/
  pairs : plan.connections.Pairwise fun cc cc' => ¬ cc'.About cc.fromSlot cc.toSlot

/-- The slot is open and is not going to be paused. -/
def StaysOpen (s : SlotId) : Prop :=
  (r.slot s).pauseState = .none ∧
    ¬ (r.HasSlot s ∧ ∃ c ∈ (r.slot s).active, (r.comp c).state = .active)

/-- The component opens its slot: it is ready, or it is going to be resumed and agrees to it. -/
def Opens (c : CompId) : Prop :=
  (r.comp c).state = .ready ∨
    ((r.comp c).state = .active ∨ (r.comp c).state = .paused) ∧ a.Agrees .resume (r.comp c).ops c

/-- **The condition.** -/
structure Succeeds : Prop where
  /-- The slot and its new component are registered, and the component agrees to be enabled. -/
  replaced : ∀ s n, plan.Puts s n →
    r.HasSlot s ∧ r.HasComp n ∧ a.Agrees .enable (r.comp n).ops n
  /-- A slot that keeps its component stays open, or is registered and opened by its component. -/
  opened : ∀ s ∈ plan.slots, (∀ n, ¬ plan.Puts s n) →
    StaysOpen r s ∨ r.HasSlot s ∧ ∃ c ∈ (r.slot s).active, Opens r a c
  /-- Where the plan removes, there is at most one connection. -/
  removed : ∀ cc ∈ plan.connections, cc.action = .remove →
    (r.modesBetween cc.fromSlot cc.toSlot).length ≤ 1
  /-- Where it adds, there is a connection of this mode, or the slots are registered and there is
  memory: two allocations are made for each entry that adds. -/
  added : ∀ pre cc post, plan.connections = pre ++ cc :: post → cc.action = .add →
    cc.mode ∈ r.modesBetween cc.fromSlot cc.toSlot ∨
      r.CanAdd cc ∧ a .calloc (2 * adds pre) = true ∧ a .calloc (2 * adds pre + 1) = true
  /-- Where it rewires, there is a connection. -/
  rewired : ∀ cc ∈ plan.connections, cc.action = .rewire →
    r.modesBetween cc.fromSlot cc.toSlot ≠ []

end RecompPlan

/-! ### Before the visits -/

variable {r : Registry}

/-- Connections and their modes depend on the list of connections. -/
theorem modesBetween_congr {r' : Registry} (hlist : r'.connections = r.connections)
    (hconn : r'.conn = r.conn) (f t : Option SlotId) : r'.modesBetween f t = r.modesBetween f t := by
  unfold Registry.modesBetween
  rw [hlist, hconn]

theorem Listed.congr {r' : Registry} (h : Listed r) (hsame : SameLayout r r') : Listed r' := by
  refine ⟨hsame.connections ▸ h.nodup, fun c hc => ?_⟩
  rw [hsame.nextConn]
  exact h.fresh c (hsame.connections ▸ hc)

/-- What is there when the slots of the order are going to be visited. -/
structure BeforeVisits (plan : RecompPlan) (r : Registry) (a : Answers) (order : List SlotId)
    (w : World) : Prop where
  hasSlot : ∀ s, w.reg.HasSlot s ↔ r.HasSlot s
  hasComp : ∀ c, w.reg.HasComp c ↔ r.HasComp c
  ops : ∀ c, (w.reg.comp c).ops = (r.comp c).ops
  bound : ∀ s n, plan.Puts s n → (w.reg.slot s).active =
    if r.HasSlot s ∧ r.HasComp n then some n else (r.slot s).active
  kept : ∀ s, (∀ n, ¬ plan.Puts s n) → (w.reg.slot s).active = (r.slot s).active
  pause : ∀ s ∈ order, (w.reg.slot s).pauseState =
    if r.HasSlot s ∧ ∃ c ∈ (r.slot s).active, (r.comp c).state = .active then .done
    else (r.slot s).pauseState
  state : ∀ c, (∀ s n, plan.Puts s n → (r.slot s).active ≠ some c) →
    (w.reg.comp c).state = if ActiveIn r order c then .paused else (r.comp c).state
  spent : ∀ c, (r.comp c).state.Spent → (w.reg.comp c).state.Spent
  answers : ∀ q c, q = .enable ∨ q = .resume → w.answers.AgreeOn q c a
  modes : ∀ pre cc post, plan.connections = pre ++ cc :: post →
    (∀ cc' ∈ pre ++ post, ¬ cc'.About cc.fromSlot cc.toSlot) →
      w.reg.modesBetween cc.fromSlot cc.toSlot =
        cc.tunes r (a .calloc (2 * adds pre) && a .calloc (2 * adds pre + 1))
          (cc.removes (r.modesBetween cc.fromSlot cc.toSlot))

section Phases

variable {plan : RecompPlan} {a : Answers} {order : List SlotId} {w : World}

/-- The phases between the pausing and the visits. -/
theorem beforeVisits (hlisted : Listed r) (hordered : Ordered r plan order)
    (hchanges : plan.changedSlots.Nodup) (hpaused : PausedUpTo r a order w) :
    BeforeVisits plan r a order (Prog.run graphStep (do
      Prog.forEach removeConnection plan.connections
      Prog.forEach swapSlot (plan.changes.zip (plan.oldComps r))
      Prog.forEach addConnection plan.connections) w).1 := by
  simp only [Prog.run_bind]
  have hvalid : ∀ e ∈ plan.changes.zip (plan.oldComps r), validateChange r e.1 = none :=
    fun e he => findSome?_eq_none_iff.mp hordered.2.1 _ (mem_swaps.mp he).1
  have hone : (plan.changes.zip (plan.oldComps r)).Pairwise
      fun e e' => ∀ s, e.1.slot = some s → e'.1.slot ≠ some s := by
    rw [RecompPlan.changedSlots, ← map_fst_swaps r plan, Nodup, pairwise_filterMap, pairwise_map]
      at hchanges
    exact hchanges.imp fun h s hs hs' => h s hs s hs' rfl
  have hputs : ∀ {s n}, plan.Puts s n →
      ∃ sc, (sc, (r.slot s).active) ∈ plan.changes.zip (plan.oldComps r) ∧
        sc.replacement = some (s, n) := by
    rintro s n ⟨sc, hsc, hrep⟩
    exact ⟨sc, mem_swaps.mpr ⟨hsc, by simp [(SlotChange.replacement_eq_some.mp hrep).2.1]⟩, hrep⟩
  have hlisted₁ : Listed w.reg := hlisted.congr hpaused.same.toSameLayout
  obtain ⟨hanswers₂, hremoved⟩ := removeConnections_run plan.connections hlisted₁
  generalize hw₂ : (Prog.run graphStep (Prog.forEach removeConnection plan.connections) w).1 = w₂
    at hanswers₂ hremoved ⊢
  obtain ⟨hswaps, hkept⟩ := swapSlots_run hvalid w₂
  generalize hw₃ : (Prog.run graphStep (Prog.forEach swapSlot _) w₂).1 = w₃ at hswaps hkept ⊢
  have hlisted₃ : Listed w₃.reg := hremoved.listed.congr hswaps.same
  obtain ⟨halloc, hadded⟩ := addConnections_run plan.connections hlisted₃
  generalize hw₄ : (Prog.run graphStep (Prog.forEach addConnection plan.connections) w₃).1 = w₄
    at halloc hadded ⊢
  constructor
  · exact fun s => (hadded.same.hasSlot s).trans ((hswaps.same.hasSlot s).trans
      ((hremoved.same.hasSlot s).trans (hpaused.same.hasSlot s)))
  · exact fun c => (hadded.same.hasComp c).trans ((hswaps.same.hasComp c).trans
      ((hremoved.same.hasComp c).trans (hpaused.same.hasComp c)))
  · intro c
    rw [hadded.same.comp, hswaps.same.ops, hremoved.same.comp, hpaused.same.ops]
  · intro s n hn
    obtain ⟨sc, he, hrep⟩ := hputs hn
    have hbound := swapSlots_bound hvalid hone he hrep w₂
    rw [hw₃] at hbound
    rw [hadded.same.slot, hbound, hremoved.same.slot, hpaused.same.active]
    simp only [hremoved.same.hasSlot, hpaused.same.hasSlot, hremoved.same.hasComp,
      hpaused.same.hasComp]
  · intro s hs
    rw [hadded.same.slot, hkept s fun e he n hrep => hs n ⟨e.1, (mem_swaps.mp he).1, hrep⟩,
      hremoved.same.slot, hpaused.same.active]
  · intro s hs
    have hactive : (∃ c ∈ (r.slot s).active, ActiveIn r order c) ↔
        ∃ c ∈ (r.slot s).active, (r.comp c).state = .active := by
      constructor
      · rintro ⟨c, hc, hin⟩
        exact ⟨c, hc, hin.1⟩
      · rintro ⟨c, hc, hact⟩
        exact ⟨c, hc, hact, s, hs, hc⟩
    simp only [hadded.same.slot, hswaps.pauseState, hremoved.same.slot, hpaused.pause, hactive]
  · intro c hc
    rw [hadded.same.comp, hswaps.state c, hremoved.same.comp, hpaused.state]
    rintro ⟨e, he, hrep, hold⟩
    obtain ⟨⟨s, n⟩, hrep⟩ := Option.ne_none_iff_exists'.mp hrep
    obtain ⟨hsc, hslot⟩ := mem_swaps.mp he
    rw [(SlotChange.replacement_eq_some.mp hrep).2.1, hold] at hslot
    exact hc s n ⟨e.1, hsc, hrep⟩ hslot.symm
  · intro c hc
    rw [hadded.same.comp]
    refine hswaps.spent c ?_
    rwa [hremoved.same.comp, hpaused.state_of_ne]
    rintro hactive
    rcases hc with hc | hc <;> simp [hactive] at hc
  · intro q c hq o ho
    rw [halloc.others o, hswaps.answers o, hanswers₂, hpaused.answers o]
    · intro c' _ hasks
      rcases hq with rfl | rfl <;> rcases ho with rfl | rfl <;>
        simp [FwOp.AsksPause, Ask.enable, Ask.resume] at hasks
    · intro c' hasks
      rcases hq with rfl | rfl <;> rcases ho with rfl | rfl <;>
        simp [FwOp.AsksOld, Ask.Asks, Ask.enable, Ask.resume, Ask.disable] at hasks
    · rcases ho with rfl | rfl <;> simp
  · intro pre cc post heq hother
    have hremove := removeConnections_own hlisted₁ hother
    have hadd := addConnections_own hlisted₃ hother
    rw [← heq, hw₂] at hremove
    rw [← heq, hw₄] at hadd
    have hcalloc : w₃.answers .calloc = a .calloc := by
      rw [hswaps.answers .calloc (by simp [FwOp.AsksOld, Ask.Asks]), hanswers₂,
        hpaused.answers .calloc (by simp [FwOp.AsksPause])]
    have hcan : w₃.reg.CanAdd cc ↔ r.CanAdd cc := by
      simp only [Registry.CanAdd, hswaps.same.hasSlot, hremoved.same.hasSlot, hpaused.same.hasSlot]
    rw [hadd, hcalloc, modesBetween_congr hswaps.same.connections hswaps.same.conn, hremove,
      modesBetween_congr hpaused.same.connections hpaused.same.conn]
    simp only [ConnChange.tunes, hcan]

/-! ### After the visits -/

variable {s t : SlotId} {c n : CompId} (h : BeforeVisits plan r a order w)
  (hordered : Ordered r plan order) (hsimple : plan.Simple r)

/-- The slot of a change is a slot of the plan. -/
theorem RecompPlan.Puts.mem_slots (h : plan.Puts s n) : s ∈ plan.slots := by
  obtain ⟨sc, hsc, hrep⟩ := h
  exact mem_append_left _ (mem_filterMap.mpr ⟨sc, hsc, (SlotChange.replacement_eq_some.mp hrep).2.1⟩)

include h hsimple in
/-- A component that is meant for a slot is in no other slot of the plan. -/
theorem BeforeVisits.alone (hs : s ∈ plan.slots) (hmeant : plan.Meant r s c) (ht : t ∈ plan.slots)
    (hbound : (w.reg.slot t).active = some c) : t = s := by
  by_cases hkept : ∀ n, ¬ plan.Puts t n
  · rw [h.kept t hkept] at hbound
    exact hsimple.apart t ht s hs c (.inr ⟨hkept, hbound⟩) hmeant
  · push Not at hkept
    obtain ⟨n, hn⟩ := hkept
    rw [h.bound t n hn] at hbound
    split_ifs at hbound
    · obtain rfl := Option.some.inj hbound
      exact hsimple.apart t ht s hs n (.inl hn) hmeant
    · exact absurd hmeant (hsimple.away t n c hn hbound s hs)

include h hsimple in
/-- A component that is meant for a slot is as the pausing has left it. -/
theorem BeforeVisits.state_of_meant (hs : s ∈ plan.slots) (hmeant : plan.Meant r s c) :
    (w.reg.comp c).state = if ActiveIn r order c then .paused else (r.comp c).state :=
  h.state c fun t n hn hc => hsimple.away t n c hn hc s hs hmeant

include h hordered hsimple in
/-- It is visited once. -/
theorem BeforeVisits.visited (hs : s ∈ plan.slots) (hmeant : plan.Meant r s c)
    (hactive : (w.reg.slot s).active = some c) :
    Visited s c w (Prog.run graphStep (Prog.forEach resumeSlot order.reverse) w).1 := by
  have hmem : s ∈ order.reverse := mem_reverse.mpr ((hordered.mem_order s).mpr hs)
  have hnodup : order.reverse.Nodup := nodup_reverse.mpr (hordered.nodup hsimple.changes)
  have hslots : ∀ t ∈ order.reverse, t ∈ plan.slots := fun t ht =>
    (hordered.mem_order t).mp (mem_reverse.mp ht)
  obtain ⟨pre, post, heq⟩ := append_of_mem hmem
  rw [heq] at hnodup hslots ⊢
  rw [nodup_append, nodup_cons] at hnodup
  refine resumeSlots_visited hactive fun t ht hc => ?_
  have hmem' : t ∈ pre ++ s :: post := by
    rw [mem_append] at ht
    exact mem_append.mpr (ht.imp_right (mem_cons_of_mem _))
  obtain rfl := h.alone hsimple hs hmeant (hslots t hmem') hc
  rcases mem_append.mp ht with ht | ht
  · exact hnodup.2.2 t ht t mem_cons_self rfl
  · exact hnodup.2.1.1 ht

include h hordered in
/-- A slot of the plan is open before the visits if it stays open. -/
theorem BeforeVisits.open_iff (hs : s ∈ plan.slots) :
    (w.reg.slot s).pauseState = .none ↔ RecompPlan.StaysOpen r s := by
  rw [h.pause s ((hordered.mem_order s).mpr hs), RecompPlan.StaysOpen]
  split_ifs with hactive
  · exact iff_of_false (by simp) fun hh => hh.2 hactive
  · exact ⟨fun hnone => ⟨hnone, hactive⟩, fun hh => hh.1⟩

include h hordered hsimple in
/-- **A slot that is given a new component.** -/
theorem BeforeVisits.replaced_iff (hputs : plan.Puts s n) :
    let w' := (Prog.run graphStep (Prog.forEach resumeSlot order.reverse) w).1
    ((w'.reg.slot s).active = some n ∧ (w'.reg.comp n).state = .active ∧
        (w'.reg.slot s).pauseState = .none) ↔
      r.HasSlot s ∧ r.HasComp n ∧ a.Agrees .enable (r.comp n).ops n := by
  intro w'
  have hs := hputs.mem_slots
  have hactive : (w'.reg.slot s).active = _ :=
    ((resumeSlots_spares_none order.reverse w).same.active s).trans (h.bound s n hputs)
  by_cases hreg : r.HasSlot s ∧ r.HasComp n
  · have hbound := h.bound s n hputs
    rw [if_pos hreg] at hactive hbound
    obtain ⟨sc, hsc, hrep⟩ := hputs
    have hready := ready_of_replacement (findSome?_eq_none_iff.mp hordered.2.1 sc hsc) hrep
    have hmeant : plan.Meant r s n := .inl ⟨sc, hsc, hrep⟩
    have hstate := h.state_of_meant hsimple hs hmeant
    rw [if_neg fun hin => by simpa [hready] using hin.1, hready] at hstate
    have hvisited := h.visited hordered hsimple hs hmeant hbound
    have hagrees := (h.answers .enable n (.inl rfl)).agrees_iff (r.comp n).ops
    rw [hvisited.state hstate, hvisited.ready hstate, if_pos ((h.hasSlot s).mpr hreg.1), h.ops]
    simp [hactive, h.hasComp, hreg, hagrees]
  · rw [if_neg hreg] at hactive
    refine iff_of_false (fun hh => ?_) fun hh => hreg ⟨hh.1, hh.2.1⟩
    exact hsimple.away s n n hputs (hactive.symm.trans hh.1) s hs (.inl hputs)

include h hordered hsimple in
/-- **A slot that keeps its component.** -/
theorem BeforeVisits.opened_iff (hs : s ∈ plan.slots) (hkept : ∀ n, ¬ plan.Puts s n) :
    ((Prog.run graphStep (Prog.forEach resumeSlot order.reverse) w).1.reg.slot s).pauseState = .none ↔
      RecompPlan.StaysOpen r s ∨ r.HasSlot s ∧ ∃ c ∈ (r.slot s).active, RecompPlan.Opens r a c := by
  have hactive := h.kept s hkept
  rw [← h.open_iff hordered hs]
  cases hc : (r.slot s).active with
  | none =>
    rw [(resumeSlots_spares_none order.reverse w).pause s (hactive.trans hc)]
    simp
  | some c =>
    rw [hc] at hactive
    have hmeant : plan.Meant r s c := .inr ⟨hkept, hc⟩
    have hvisited := h.visited hordered hsimple hs hmeant hactive
    have hstate := h.state_of_meant hsimple hs hmeant
    have hagrees := (h.answers .resume c (.inr rfl)).agrees_iff (r.comp c).ops
    have hin : ActiveIn r order c ↔ (r.comp c).state = .active :=
      ⟨fun hin => hin.1, fun hact => ⟨hact, s, (hordered.mem_order s).mpr hs, hc⟩⟩
    simp only [hin] at hstate
    simp only [Option.mem_some_iff, exists_eq_left', RecompPlan.Opens]
    have hready := hvisited.ready
    have hpaused := hvisited.paused
    have hskipped := hvisited.skipped
    simp only [h.hasSlot, h.ops, hagrees] at hready hpaused
    generalize ((Prog.run graphStep (Prog.forEach resumeSlot order.reverse) w).1.reg.slot s).pauseState =
      after at hready hpaused hskipped ⊢
    cases hst : (r.comp c).state with
    | ready =>
      rw [hready (by simp [hstate, hst])]
      split_ifs with hhas <;> simp [hhas]
    | active | paused =>
      rw [hpaused (by simp [hstate, hst])]
      split_ifs with hh
      · simp [hh]
      · simpa using fun hhas hok => absurd ⟨hhas, hok⟩ hh
    | uninit | init | destroyed =>
      rw [hskipped (by simp [hstate, hst]) (by simp [hstate, hst])]
      simp

/-- Other entries are about the connections between other slots. -/
theorem RecompPlan.Simple.others (h : plan.Simple r) {pre post : List ConnChange} {cc : ConnChange}
    (heq : plan.connections = pre ++ cc :: post) :
    ∀ cc' ∈ pre ++ post, ¬ cc'.About cc.fromSlot cc.toSlot := by
  have hpairs := h.pairs
  rw [heq, pairwise_append, pairwise_cons] at hpairs
  rintro cc' hcc' ⟨hfrom, hto⟩
  rcases mem_append.mp hcc' with hcc' | hcc'
  · exact hpairs.2.2 cc' hcc' cc mem_cons_self ⟨hfrom.symm, hto.symm⟩
  · exact hpairs.2.1.1 cc' hcc' ⟨hfrom, hto⟩

include h hordered hsimple in
/-- **After the visits** what the plan asks for is there just under the condition. -/
theorem BeforeVisits.recomposed_iff_succeeds :
    Recomposed plan (Prog.run graphStep (Prog.forEach resumeSlot order.reverse) w).1.reg ↔
      plan.Succeeds r a := by
  have hmodes : ∀ pre cc post, plan.connections = pre ++ cc :: post →
      (Prog.run graphStep (Prog.forEach resumeSlot order.reverse) w).1.reg.modesBetween
        cc.fromSlot cc.toSlot = _ := fun pre cc post heq => by
    have hsame := (resumeSlots_spares_none order.reverse w).same
    rw [modesBetween_congr hsame.connections hsame.conn, h.modes pre cc post heq (hsimple.others heq)]
  have hreplaced := fun s n (hn : plan.Puts s n) => h.replaced_iff hordered hsimple hn
  have hopened := fun s (hs : s ∈ plan.slots) => h.opened_iff hordered hsimple hs
  generalize (Prog.run graphStep (Prog.forEach resumeSlot order.reverse) w).1 = w'
    at hmodes hreplaced hopened ⊢
  constructor
  · intro hdone
    refine ⟨fun s n hn => (hreplaced s n hn).mp (hdone.replaced s n hn),
      fun s hs hkept => (hopened s hs hkept).mp (hdone.opened s hs), fun cc hcc haction => ?_,
      fun pre cc post heq haction => ?_, fun cc hcc haction => ?_⟩
    · obtain ⟨pre, post, heq⟩ := append_of_mem hcc
      rw [← ConnChange.removed_iff haction, ← hmodes pre cc post heq]
      exact hdone.removed cc hcc haction
    · have hmem := hdone.tuned cc (heq ▸ by simp) (.inl haction)
      rwa [hmodes pre cc post heq, ConnChange.added_iff haction, Bool.and_eq_true] at hmem
    · obtain ⟨pre, post, heq⟩ := append_of_mem hcc
      rw [← ConnChange.rewired_iff haction, ← hmodes pre cc post heq]
      exact hdone.tuned cc hcc (.inr haction)
  · intro hcond
    have hnew := fun s n hn => (hreplaced s n hn).mpr (hcond.replaced s n hn)
    refine ⟨hnew, fun s hs => ?_, fun cc hcc haction => ?_, fun cc hcc haction => ?_⟩
    · by_cases hkept : ∀ n, ¬ plan.Puts s n
      · exact (hopened s hs hkept).mpr (hcond.opened s hs hkept)
      · push Not at hkept
        obtain ⟨n, hn⟩ := hkept
        exact (hnew s n hn).2.2
    · obtain ⟨pre, post, heq⟩ := append_of_mem hcc
      rw [hmodes pre cc post heq, ConnChange.removed_iff haction]
      exact hcond.removed cc hcc haction
    · obtain ⟨pre, post, heq⟩ := append_of_mem hcc
      rw [hmodes pre cc post heq]
      rcases haction with haction | haction
      · rw [ConnChange.added_iff haction, Bool.and_eq_true]
        exact hcond.added pre cc post heq haction
      · rw [ConnChange.rewired_iff haction]
        exact hcond.rewired cc hcc haction

end Phases

/-! ### The outcome -/

/-- A graph that calls make is consistent: whatever they do, they do by calls of the registry. -/
theorem Consistent.fwNext (h : Consistent r) (call : FwCall × Answers) :
    Consistent (FwCall.next r call) := by
  refine (Prog.all_true call.1.prog).run_inv (fun w : World => Consistent w.reg) (fun o _ w hw => ?_) h
  cases o with
  | reg call => exact hw.next call
  | _ => exact hw

theorem consistent_fwRun (slot : SlotId → Slot) (comp : CompId → Component)
    (calls : List (FwCall × Answers)) :
    Consistent (runFrom FwCall.next (bootRegistry slot comp) calls) :=
  runFrom_inv Consistent (fun _ call h => h.fwNext call) (consistent_boot slot comp) calls

/-- Slots `1` and `2` are bound to components `7` and `8`, which are active, and connected;
component `9` is ready. -/
def sevenActive : Registry :=
  runFrom FwCall.next (bootRegistry (fun s => { name := some (toString s) })
    fun c => { manifestId := some "m", instanceId := some (toString c), ops := [.enable, .resume] })
    (agreed [.reg (.slotRegister (some 1) true), .reg (.slotRegister (some 2) true),
      .reg (.componentRegister (some 7) true), .reg (.componentRegister (some 8) true),
      .reg (.componentRegister (some 9) true), .verb .init (some 7), .verb .init (some 8),
      .verb .init (some 9), .reg (.slotSwap (some 1) (some 7)), .reg (.slotSwap (some 2) (some 8)),
      .verb .enable (some 7), .verb .enable (some 8),
      .reg (.connectionRegister (some 1) (some 2) .async false .queue true true)])

/-- A plan to put component `9` in slot `1`, and to make the connection synchronous. -/
def sevenByNine : RecompPlan where
  changes := [⟨some 1, .replace, some 9, false⟩]
  connections := [⟨some 1, some 2, .rewire, .sync, false, .queue⟩]

theorem sevenByNine_puts {s : SlotId} {n : CompId} : sevenByNine.Puts s n ↔ s = 1 ∧ n = 9 := by
  constructor
  · rintro ⟨sc, hsc, hrep⟩
    obtain rfl := mem_singleton.mp hsc
    cases hrep
    exact ⟨rfl, rfl⟩
  · rintro ⟨rfl, rfl⟩
    exact ⟨_, mem_singleton.mpr rfl, rfl⟩

theorem sevenByNine_meant {s : SlotId} {c : CompId} (hs : s ∈ sevenByNine.slots)
    (h : sevenByNine.Meant sevenActive s c) : s = 1 ∧ c = 9 ∨ s = 2 ∧ c = 8 := by
  rcases h with hputs | ⟨hkept, hactive⟩
  · exact .inl (sevenByNine_puts.mp hputs)
  · obtain rfl | rfl : s = 1 ∨ s = 2 := by simpa [sevenByNine, RecompPlan.slots,
      RecompPlan.changedSlots, rewiredSlots] using hs
    · exact absurd (sevenByNine_puts.mpr ⟨rfl, rfl⟩) (hkept 9)
    · have height : (sevenActive.slot 2).active = some 8 := by decide +kernel
      exact .inr ⟨rfl, Option.some.inj (hactive.symm.trans height)⟩

theorem sevenByNine_simple : sevenByNine.Simple sevenActive where
  changes := by decide
  apart s hs t ht c hmeant hmeant' := by
    rcases sevenByNine_meant hs hmeant with ⟨rfl, rfl⟩ | ⟨rfl, rfl⟩ <;>
      rcases sevenByNine_meant ht hmeant' with ⟨rfl, hc⟩ | ⟨rfl, hc⟩ <;> first | rfl | cases hc
  away s n c hputs hactive t ht hmeant := by
    obtain ⟨rfl, -⟩ := sevenByNine_puts.mp hputs
    have hseven : (sevenActive.slot 1).active = some 7 := by decide +kernel
    obtain rfl := Option.some.inj (hseven.symm.trans hactive)
    rcases sevenByNine_meant ht hmeant with ⟨-, hc⟩ | ⟨-, hc⟩ <;> cases hc
  pairs := by simp [sevenByNine]

end Nonux.Framework
