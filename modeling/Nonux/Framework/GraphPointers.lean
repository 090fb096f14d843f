import Nonux.Framework.GraphConsistency

/-!
# Where the pointers of registered slots lead

A slot structure has two pointers of its own: to the component it is bound to and to its
fallback slot. `nx_slot_swap` and `nx_slot_set_fallback` store only what is registered, and
`nx_component_unregister` refuses a component that a registered slot is bound to. Two calls look
at less than they would have to. `nx_slot_unregister` asks for the connections of the slot, not
for slots that have it as their fallback; and `nx_slot_register` resets the fallback of a slot
but not what it is bound to, which may be gone by then.

`next_pointsInside_iff` says that these two are all: where the pointers are good before a call,
they are good after it exactly when the call is none of the two.
-/

namespace Nonux.Framework

open Nonux.Lib Function

/-- The pointers of registered slots lead to what is registered. -/
structure PointsInside (r : Registry) : Prop where
  active : ∀ s, r.HasSlot s → ∀ c ∈ (r.slot s).active, r.HasComp c
  fallback : ∀ s, r.HasSlot s → ∀ t ∈ (r.slot s).fallback, r.HasSlot t

/-- A slot is registered only when what it is bound to is, and goes only when it is no other
slot's fallback; both are asked only where the call comes that far. -/
def PointersKept (r : Registry) : RegCall → Prop
  | .slotRegister (some s) calloc =>
    (r.slot s).name ≠ none → r.nxSlotLookup (r.slot s).name = none → calloc = true →
      ∀ c ∈ (r.slot s).active, r.HasComp c
  | .slotUnregister (some s) =>
    r.nxSlotForeachDependent (some s) = [] → r.nxSlotForeachDependency (some s) = [] →
      ∀ t ∈ r.nxGraphForeachSlot, t ≠ s → (r.slot t).fallback ≠ some s
  | _ => True

instance (r : Registry) (call : RegCall) : Decidable (PointersKept r call) := by
  unfold PointersKept
  split <;> infer_instance

/-! ### The calls -/

variable {r : Registry} {s : SlotId}

/-- A store to one slot, with the lists as they were. -/
theorem PointsInside.update {r' : Registry} {sl : Slot} (h : PointsInside r)
    (hslot : r'.slot = update r.slot s sl) (hhas : ∀ t, r'.HasSlot t ↔ r.HasSlot t ∨ t = s)
    (hcomps : r'.components = r.components) (hactive : ∀ c ∈ sl.active, r.HasComp c)
    (hfallback : ∀ t ∈ sl.fallback, r.HasSlot t) : PointsInside r' := by
  constructor
  · intro t ht c hc
    show c ∈ r'.components
    rw [hcomps]
    rw [hslot] at hc
    by_cases hts : t = s
    · subst hts
      rw [update_self] at hc
      exact hactive c hc
    · rw [update_of_ne hts] at hc
      exact h.active t (((hhas t).mp ht).resolve_right hts) c hc
  · intro t ht u hu
    rw [hhas]
    left
    rw [hslot] at hu
    by_cases hts : t = s
    · subst hts
      rw [update_self] at hu
      exact hfallback u hu
    · rw [update_of_ne hts] at hu
      exact h.fallback t (((hhas t).mp ht).resolve_right hts) u hu

/-- The same slots, with the same pointers. -/
theorem PointsInside.congr {r' : Registry} (h : PointsInside r) (hslot : r'.slot = r.slot)
    (hslots : r'.slots.map (·.slot) = r.slots.map (·.slot))
    (hcomps : ∀ s, r.HasSlot s → ∀ c ∈ (r.slot s).active, r.HasComp c → r'.HasComp c) :
    PointsInside r' := by
  have hhas := hasSlot_congr hslots
  constructor
  · intro s hs c hc
    rw [hslot] at hc
    rw [hhas] at hs
    exact hcomps s hs c hc (h.active s hs c hc)
  · intro s hs t ht
    rw [hslot] at ht
    rw [hhas] at hs ⊢
    exact h.fallback s hs t ht

theorem hasSlot_cons {r' : Registry} (h : r'.slots = { slot := s } :: r.slots) (t : SlotId) :
    r'.HasSlot t ↔ r.HasSlot t ∨ t = s := by
  simp only [Registry.HasSlot, Registry.nxGraphForeachSlot, h, List.map_cons, List.mem_cons, or_comm]

/-- What is registered once the node of a slot is gone. -/
theorem mem_slots_eraseP (hnames : Names r) (s t : SlotId) :
    t ∈ (r.slots.eraseP fun n => decide (n.slot = s)).map (·.slot) ↔ r.HasSlot t ∧ t ≠ s := by
  have hmap : (r.slots.eraseP fun n => decide (n.slot = s)).map (·.slot) =
      r.nxGraphForeachSlot.erase s := by
    rw [Registry.nxGraphForeachSlot, List.erase_eq_eraseP, List.eraseP_map]
    congr 2
    funext n
    rw [Function.comp_apply, beq_eq_decide]
    exact decide_eq_decide.mpr eq_comm
  rw [hmap, hnames.slots_nodup.mem_erase_iff, and_comm]
  rfl

/-- A slot stays registered, unless a call comes so far as to unregister it. -/
theorem hasSlot_next (hnames : Names r) {call : RegCall} {t : SlotId} (ht : r.HasSlot t)
    (hcall : r.nxSlotForeachDependent (some t) = [] → r.nxSlotForeachDependency (some t) = [] →
      call ≠ .slotUnregister (some t)) : (call.next r).HasSlot t := by
  refine RegCall.next_inv (I := fun r' => r'.HasSlot t) ht fun r' he => ?_
  cases he with
  | slotRegister => exact List.mem_cons_of_mem _ ht
  | slotUnregister hsn hin hout =>
    refine (mem_slots_eraseP hnames _ t).mpr ⟨ht, ?_⟩
    rintro rfl
    exact hcall (by simp [Registry.nxSlotForeachDependent, hsn, hin])
      (by simp [Registry.nxSlotForeachDependency, hsn, hout]) rfl
  | connectionRegister => exact (hasSlot_congr (relink_slots (fun l => r.nextConn :: l) _ _ _) t).mpr ht
  | @connectionUnregister c => exact (hasSlot_congr (relink_slots (fun l => l.erase c) _ _ _) t).mpr ht
  | _ => exact ht

theorem slotRegister_ok (hname : (r.slot s).name ≠ none) (hnew : r.nxSlotLookup (r.slot s).name = none) :
    (RegCall.apply r (.slotRegister (some s) true)).2 = .ok () := by
  have hfind : r.slotNodeFind (r.slot s).name = none := by simpa [Registry.nxSlotLookup] using hnew
  simp [RegCall.apply, Registry.nxSlotRegister, hname, hfind]

theorem slotUnregister_ok (hs : r.HasSlot s) (hin : r.nxSlotForeachDependent (some s) = [])
    (hout : r.nxSlotForeachDependency (some s) = []) :
    (RegCall.apply r (.slotUnregister (some s))).2 = .ok () := by
  obtain ⟨sn, hsn⟩ := Option.ne_none_iff_exists'.mp (Registry.slotNodeFor_ne_none_iff.mpr hs)
  simp only [Registry.nxSlotForeachDependent, Registry.nxSlotForeachDependency, hsn, Option.map_some,
    Option.getD_some] at hin hout
  simp [RegCall.apply, Registry.nxSlotUnregister, hsn, hin, hout]

theorem PointsInside.next {call : RegCall} (hnames : Names r) (h : PointsInside r)
    (hkept : PointersKept r call) : PointsInside (call.next r) := by
  refine call.next_inv h fun r' he => ?_
  cases he with
  | @slotRegister s hname hnew =>
    have hlookup : r.nxSlotLookup (r.slot s).name = none := by
      rw [Registry.nxSlotLookup, Option.map_eq_none_iff, Registry.slotNodeFind, List.find?_eq_none]
      intro n hn
      simp [hnew n hn]
    exact h.update rfl (hasSlot_cons rfl) rfl (hkept hname hlookup rfl) (by simp)
  | @slotSwap s newImpl hs hnew =>
    refine h.update rfl (fun t => ?_) rfl hnew (h.fallback s hs)
    exact ⟨.inl, fun ht => ht.elim id fun heq => heq ▸ hs⟩
  | @slotSetFallback s fallback hs hne hfb =>
    refine h.update rfl (fun t => ?_) rfl (h.active s hs) hfb
    exact ⟨.inl, fun ht => ht.elim id fun heq => heq ▸ hs⟩
  | @slotSetPauseState s st hs =>
    refine h.update rfl (fun t => ?_) rfl (h.active s hs) (h.fallback s hs)
    exact ⟨.inl, fun ht => ht.elim id fun heq => heq ▸ hs⟩
  | @slotUnregister s sn hsn hin hout =>
    have hhas := mem_slots_eraseP hnames s
    have hfree := hkept (by simp [Registry.nxSlotForeachDependent, hsn, hin])
      (by simp [Registry.nxSlotForeachDependency, hsn, hout])
    constructor
    · intro t ht c hc
      exact h.active t ((hhas t).mp ht).1 c hc
    · intro t ht u hu
      obtain ⟨ht, hne⟩ := (hhas t).mp ht
      exact (hhas u).mpr ⟨h.fallback t ht u hu, fun heq => hfree t ht hne (heq ▸ hu)⟩
  | componentRegister => exact h.congr rfl rfl fun _ _ _ _ hc => List.mem_cons_of_mem _ hc
  | @componentUnregister c hc hfree =>
    refine h.congr rfl rfl fun s hs c' hc' hhas => ?_
    obtain ⟨n, hn, rfl⟩ := List.mem_map.mp hs
    have hne : c' ≠ c := fun heq => hfree n hn (heq ▸ hc')
    exact (List.mem_erase_of_ne hne).mpr hhas
  | componentStateSet => exact h.congr rfl rfl fun _ _ _ _ hc => hc
  | connectionRegister =>
    exact h.congr rfl (relink_slots (fun l => r.nextConn :: l) _ _ _) fun _ _ _ _ hc => hc
  | connectionRetune => exact h.congr rfl rfl fun _ _ _ _ hc => hc
  | @connectionUnregister c =>
    exact h.congr rfl (relink_slots (fun l => l.erase c) _ _ _) fun _ _ _ _ hc => hc

/-- **A call keeps the pointers good exactly when it is not one of the two.** -/
theorem next_pointsInside_iff (hnames : Names r) (h : PointsInside r) (call : RegCall) :
    PointsInside (call.next r) ↔ PointersKept r call := by
  refine ⟨fun hnext => ?_, h.next hnames⟩
  unfold PointersKept
  split
  · rename_i s calloc
    rintro hname hlookup rfl c hc
    have heffect := RegCall.effect_of_ok (slotRegister_ok hname hlookup)
    generalize (RegCall.slotRegister (some s) true).next r = r' at hnext heffect
    cases heffect
    refine hnext.active s ((hasSlot_cons rfl s).mpr (.inr rfl)) c ?_
    simpa using hc
  · rename_i s
    intro hin hout t ht hne hfb
    have heffect := RegCall.effect_of_ok (slotUnregister_ok (h.fallback t ht s hfb) hin hout)
    generalize (RegCall.slotUnregister (some s)).next r = r' at hnext heffect
    cases heffect
    have hhas := mem_slots_eraseP hnames s
    exact ((hhas s).mp (hnext.fallback t ((hhas t).mpr ⟨ht, hne⟩) s hfb)).2 rfl
  · trivial

/-! ### Runs -/

/-- **Along every run from boot the pointers of registered slots lead to what is registered,
exactly when no call of the run is one of the two.** -/
theorem pointers_inside_iff (slot : SlotId → Slot) (comp : CompId → Component) (calls : List RegCall) :
    (∀ pre, pre <+: calls → PointsInside (runFrom RegCall.next (bootRegistry slot comp) pre)) ↔
      RunOk RegCall.next PointersKept (bootRegistry slot comp) calls := by
  refine runOk_iff_forall_prefix Consistent PointsInside (fun r call h _ => h.next call)
    (fun r call hr h => next_pointsInside_iff hr.names h call) (consistent_boot slot comp) ?_ calls
  constructor <;> intro s hs <;> cases hs

/-- Slots `1` and `2` and a component: slot `1` is bound to the component and leaves, the
component leaves, slot `1` comes back; then slot `2` becomes its fallback and leaves. -/
def rebindAfterUnregister : List RegCall :=
  [.slotRegister (some 1) true, .slotRegister (some 2) true, .componentRegister (some 7) true,
    .slotSwap (some 1) (some 7), .slotUnregister (some 1), .componentUnregister (some 7),
    .slotRegister (some 1) true, .slotSetFallback (some 1) (some 2), .slotUnregister (some 2)]

/-- All calls succeed, and both pointers of slot `1` lead nowhere. -/
theorem pointers_dangle :
    let r₀ := bootRegistry (fun s => { name := some (toString s) })
      fun _ => { manifestId := some "m", instanceId := some "i" }
    let r := runFrom RegCall.next r₀ rebindAfterUnregister
    (∀ k < 9, ((rebindAfterUnregister[k]?.map fun call =>
      (call.apply (runFrom RegCall.next r₀ (rebindAfterUnregister.take k))).2) = some (.ok ()))) ∧
    r.HasSlot 1 ∧ (r.slot 1).active = some 7 ∧ ¬ r.HasComp 7 ∧ (r.slot 1).fallback = some 2 ∧
      ¬ r.HasSlot 2 := by
  decide +kernel

end Nonux.Framework
