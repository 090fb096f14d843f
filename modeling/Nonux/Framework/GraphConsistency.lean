import Nonux.Framework.Registry
import Nonux.Lib.Count

/-!
# The lists of the component graph agree

Every connection is in three lists at once, and the counts are kept beside the lists. What
keeps them together is an invariant of every call (`Consistent`), in three parts:

* the counts are the lengths of the lists (`Counts`);
* the registered slots have names, and no two the same (`Names`); so a slot is registered once;
* the connections of a slot's two lists are exactly the registered ones that lead to it and
  come from it, each once, and both ends of a registered connection are registered (`Edges`).
-/

namespace Nonux.Framework

open Nonux.Lib Function List Registry

/-! ### The invariant -/

/-- The counts are those of the lists. -/
structure Counts (r : Registry) : Prop where
  slots : r.slotCount = r.slots.length
  components : r.componentCount = r.components.length
  connections : r.connectionCount = r.connections.length

/-- Registered slots have names, all different. -/
structure Names (r : Registry) : Prop where
  named : ∀ n ∈ r.slots, (r.slot n.slot).name ≠ none
  nodup : (r.slots.map fun n => (r.slot n.slot).name).Nodup

/-- The lists of connections agree. -/
structure Edges (r : Registry) : Prop where
  nodup : r.connections.Nodup
  incoming : ∀ n ∈ r.slots, Enumerates n.incoming fun c => c ∈ r.connections ∧ (r.conn c).toSlot = n.slot
  outgoing : ∀ n ∈ r.slots, Enumerates n.outgoing fun c => c ∈ r.connections ∧
    (r.conn c).fromSlot = some n.slot
  toSlot : ∀ c ∈ r.connections, r.HasSlot (r.conn c).toSlot
  fromSlot : ∀ c ∈ r.connections, ∀ s, (r.conn c).fromSlot = some s → r.HasSlot s
  /-- Connections have addresses of their own. -/
  fresh : ∀ c ∈ r.connections, c < r.nextConn

/-- The registry is as it should be. -/
structure Consistent (r : Registry) : Prop where
  counts : Counts r
  names : Names r
  edges : Edges r

variable {r : Registry}

/-- What `nx_slot_foreach_dependency` visits. -/
theorem Consistent.dependencies (h : Consistent r) (s : SlotId) :
    Enumerates (r.nxSlotForeachDependency (some s)) fun c => c ∈ r.connections ∧
      (r.conn c).fromSlot = some s := by
  unfold nxSlotForeachDependency
  cases hsn : r.slotNodeFor (some s) with
  | none =>
    exact .nil fun c hc => slotNodeFor_eq_none_iff.mp hsn (h.edges.fromSlot c hc.1 s hc.2)
  | some sn =>
    obtain ⟨hmem, rfl⟩ := slotNodeFor_some hsn
    exact h.edges.outgoing sn hmem

/-- A slot is registered once. -/
theorem Names.slots_nodup (h : Names r) : r.nxGraphForeachSlot.Nodup := by
  have := h.nodup
  rw [show (fun n : SlotNode => (r.slot n.slot).name) = (fun s => (r.slot s).name) ∘ (·.slot) from rfl,
    ← map_map] at this
  exact this.of_map _

/-! ### Rewriting one node -/

theorem updateNode_slots {f : SlotNode → SlotNode} (hf : ∀ n, (f n).slot = n.slot) (s : SlotId)
    (l : List SlotNode) : (updateNode s f l).map (·.slot) = l.map (·.slot) := by
  induction l with
  | nil => rfl
  | cons n l ih =>
    rw [updateNode]
    split_ifs <;> simp [ih, hf]

namespace Registry

theorem updateNode_eq_map {s : SlotId} {f : SlotNode → SlotNode} {l : List SlotNode}
    (h : (l.map (·.slot)).Nodup) : updateNode s f l = l.map fun n => if n.slot = s then f n else n := by
  induction l with
  | nil => rfl
  | cons n l ih =>
    rw [map_cons, nodup_cons] at h
    rw [updateNode, map_cons]
    split_ifs with heq
    · congr 1
      refine (map_id' l).symm.trans (map_congr_left fun m hm => ?_)
      have hne : m.slot ≠ s := fun hm' => h.1 (heq ▸ hm' ▸ mem_map_of_mem hm)
      rw [if_neg hne]
    · rw [ih h.2]

/-- What `nx_connection_register` and `nx_connection_unregister` do to the nodes: the same to
the incoming list of one slot and to the outgoing list of the other. -/
def relink (f : List ConnId → List ConnId) (fromSlot : Option SlotId) (dst : SlotId)
    (n : SlotNode) : SlotNode where
  slot := n.slot
  incoming := if n.slot = dst then f n.incoming else n.incoming
  outgoing := if some n.slot = fromSlot then f n.outgoing else n.outgoing

theorem relink_eq_map {f : List ConnId → List ConnId} {fromSlot : Option SlotId} {dst : SlotId}
    {l : List SlotNode} (h : (l.map (·.slot)).Nodup) :
    fromSlot.elim id (fun s => updateNode s fun n => { n with outgoing := f n.outgoing })
      (updateNode dst (fun n => { n with incoming := f n.incoming }) l) = l.map
      (relink f fromSlot dst) := by
  cases fromSlot with
  | none =>
    refine (updateNode_eq_map h).trans (map_congr_left fun n _ => ?_)
    by_cases hto : n.slot = dst <;> simp [relink, hto]
  | some s =>
    have hslots := updateNode_slots (f := fun n => { n with incoming := f n.incoming })
      (fun _ => rfl) dst l
    rw [Option.elim_some, updateNode_eq_map (hslots ▸ h), updateNode_eq_map h, map_map]
    refine map_congr_left fun n _ => ?_
    simp only [Function.comp_apply, relink, Option.some.injEq]
    by_cases hto : n.slot = dst
    · simp only [if_pos hto]
      split_ifs <;> rfl
    · simp only [if_neg hto]
      split_ifs <;> rfl

end Registry

/-! ### Counts -/

theorem relink_slots (f : List ConnId → List ConnId) (fromSlot : Option SlotId) (dst : SlotId)
    (l : List SlotNode) :
    (fromSlot.elim id (fun s => updateNode s fun n => { n with outgoing := f n.outgoing })
      (updateNode dst (fun n => { n with incoming := f n.incoming }) l)).map (·.slot) = l.map
        (·.slot) := by
  cases fromSlot <;> simp [updateNode_slots]

theorem relink_length (f : List ConnId → List ConnId) (fromSlot : Option SlotId) (dst : SlotId)
    (l : List SlotNode) :
    (fromSlot.elim id (fun s => updateNode s fun n => { n with outgoing := f n.outgoing })
      (updateNode dst (fun n => { n with incoming := f n.incoming }) l)).length = l.length := by
  simpa using congrArg List.length (relink_slots f fromSlot dst l)

variable {r' : Registry} {call : RegCall}

theorem Counts.effect (h : Counts r) (he : Effect r call r') : Counts r' := by
  obtain ⟨hs, hc, hn⟩ := h
  cases he with
  | slotRegister => exact ⟨by simp [hs], hc, hn⟩
  | slotSwap | slotSetFallback | slotSetPauseState => exact ⟨hs, hc, hn⟩
  | slotUnregister hsn =>
    obtain ⟨hmem, hslot⟩ := slotNodeFor_some hsn
    refine ⟨?_, hc, hn⟩
    dsimp only
    rw [length_eraseP_of_mem hmem (by simpa using hslot), hs]
  | componentRegister => exact ⟨hs, by simp [hc], hn⟩
  | componentUnregister hcomp =>
    refine ⟨hs, ?_, hn⟩
    dsimp only
    rw [length_erase_of_mem (show _ ∈ r.components from hcomp), hc]
  | componentStateSet => exact ⟨hs, hc, hn⟩
  | connectionRegister =>
    refine ⟨?_, hc, by simp [hn]⟩
    dsimp only
    rw [relink_length (fun l => r.nextConn :: l), hs]
  | connectionRetune => exact ⟨hs, hc, hn⟩
  | @connectionUnregister c hmem =>
    refine ⟨?_, hc, ?_⟩ <;> dsimp only
    · rw [relink_length (fun l => l.erase c), hs]
    · rw [length_erase_of_mem hmem, hn]

/-! ### Names -/

/-- Only the names and the slots of the list matter. -/
theorem Names.congr (h : Names r) (hname : ∀ s, (r'.slot s).name = (r.slot s).name)
    (hslots : r'.slots.map (·.slot) = r.slots.map (·.slot)) : Names r' := by
  have hnames : r'.slots.map (fun n => (r'.slot n.slot).name) = r.slots.map
      fun n => (r.slot n.slot).name := by
    have := congrArg (List.map fun s => (r.slot s).name) hslots
    simpa only [map_map, Function.comp_def, hname] using this
  refine ⟨fun n hn hnone => ?_, hnames ▸ h.nodup⟩
  have hmem : (r'.slot n.slot).name ∈ r'.slots.map fun n => (r'.slot n.slot).name := mem_map_of_mem hn
  rw [hnames, hnone] at hmem
  obtain ⟨m, hm, hmname⟩ := mem_map.mp hmem
  exact h.named m hm hmname

variable {s : SlotId}

/-- A store to a slot that leaves its name leaves all names. -/
theorem name_update {sl : Slot} (h : sl.name = (r.slot s).name) (t : SlotId) :
    (update r.slot s sl t).name = (r.slot t).name := by
  by_cases hts : t = s
  · subst hts
    rw [update_self, h]
  · rw [update_of_ne hts]

theorem Names.effect (h : Names r) (he : Effect r call r') : Names r' := by
  cases he with
  | @slotRegister s hname hnew gen log =>
    have hkept : ∀ t, (update r.slot s { r.slot s with pauseState := .none, fallback := none } t).name =
        (r.slot t).name := name_update rfl
    constructor
    · intro n hn
      rw [hkept]
      rcases mem_cons.mp hn with rfl | hn
      · exact hname
      · exact h.named n hn
    · simp only [map_cons, hkept, nodup_cons]
      refine ⟨fun hmem => ?_, h.nodup⟩
      obtain ⟨n, hn, hsame⟩ := mem_map.mp hmem
      exact hnew n hn hsame
  | slotSwap | slotSetFallback | slotSetPauseState => exact h.congr (name_update rfl) rfl
  | @slotUnregister s =>
    have hsub : (r.slots.eraseP fun n => decide (n.slot = s)).Sublist r.slots := eraseP_sublist
    exact ⟨fun n hn => h.named n (hsub.subset hn), h.nodup.sublist (hsub.map _)⟩
  | componentRegister | componentUnregister | componentStateSet => exact h.congr (fun _ => rfl) rfl
  | connectionRegister => exact h.congr (fun _ => rfl) (relink_slots (fun l => r.nextConn :: l) _ _ _)
  | connectionRetune => exact h.congr (fun _ => rfl) rfl
  | @connectionUnregister c => exact h.congr (fun _ => rfl) (relink_slots (fun l => l.erase c) _ _ _)

/-! ### Connections -/

/-- Only the slots of the list matter for what is registered. -/
theorem hasSlot_congr (h : r'.slots.map (·.slot) = r.slots.map (·.slot)) (s : SlotId) :
    r'.HasSlot s ↔ r.HasSlot s := by
  unfold Registry.HasSlot nxGraphForeachSlot
  rw [h]

theorem hasSlot_of_mem {n : SlotNode} (h : n ∈ r.slots) : r.HasSlot n.slot := mem_map_of_mem h

/-- Only the lists and the ends of the connections matter. -/
theorem Edges.congr (h : Edges r) (hslots : r'.slots = r.slots) (hconns : r'.connections = r.connections)
    (hnext : r'.nextConn = r.nextConn)
    (hends : ∀ c, (r'.conn c).toSlot = (r.conn c).toSlot ∧
      (r'.conn c).fromSlot = (r.conn c).fromSlot) : Edges r' := by
  have hhas : ∀ s, r'.HasSlot s ↔ r.HasSlot s := hasSlot_congr (by rw [hslots])
  refine ⟨hconns ▸ h.nodup, fun n hn => ?_, fun n hn => ?_, fun c hc => ?_, fun c hc s hs => ?_,
    fun c hc => ?_⟩
  · simpa only [hconns, hends] using h.incoming n (hslots ▸ hn)
  · simpa only [hconns, hends] using h.outgoing n (hslots ▸ hn)
  · rw [hhas, (hends c).1]
    exact h.toSlot c (hconns ▸ hc)
  · rw [(hends c).2] at hs
    exact (hhas s).mpr (h.fromSlot c (hconns ▸ hc) s hs)
  · rw [hnext]
    exact h.fresh c (hconns ▸ hc)

/-- Slots come and go, the connections stay: a new slot has none, and none has an end that
went. -/
theorem Edges.of_slots (h : Edges r) (hconns : r'.connections = r.connections)
    (hnext : r'.nextConn = r.nextConn) (hconn : r'.conn = r.conn)
    (hnodes : ∀ n ∈ r'.slots, n ∈ r.slots ∨ (n.incoming = [] ∧ n.outgoing = [] ∧ ¬ r.HasSlot n.slot))
    (hto : ∀ c ∈ r.connections, r'.HasSlot (r.conn c).toSlot)
    (hfrom : ∀ c ∈ r.connections, ∀ s, (r.conn c).fromSlot = some s → r'.HasSlot s) : Edges r' := by
  constructor
  · rw [hconns]
    exact h.nodup
  · intro n hn
    rw [hconns, hconn]
    rcases hnodes n hn with hold | ⟨hin, -, hnew⟩
    · exact h.incoming n hold
    · rw [hin]
      exact .nil fun c hc => hnew (hc.2 ▸ h.toSlot c hc.1)
  · intro n hn
    rw [hconns, hconn]
    rcases hnodes n hn with hold | ⟨-, hout, hnew⟩
    · exact h.outgoing n hold
    · rw [hout]
      exact .nil fun c hc => hnew (h.fromSlot c hc.1 _ hc.2)
  · rw [hconns, hconn]
    exact hto
  · rw [hconns, hconn]
    exact hfrom
  · rw [hconns, hnext]
    exact h.fresh

theorem Edges.slotRegister (h : Edges r) (hs : ¬ r.HasSlot s)
    (hslots : r'.slots = { slot := s } :: r.slots) (hconns : r'.connections = r.connections)
    (hnext : r'.nextConn = r.nextConn) (hconn : r'.conn = r.conn) : Edges r' := by
  have hmono : ∀ t, r.HasSlot t → r'.HasSlot t := fun t ht => by
    simp only [Registry.HasSlot, nxGraphForeachSlot, hslots, map_cons, mem_cons]
    exact .inr ht
  refine h.of_slots hconns hnext hconn (fun n hn => ?_) (fun c hc => hmono _ (h.toSlot c hc))
    fun c hc t ht => hmono _ (h.fromSlot c hc t ht)
  rw [hslots, mem_cons] at hn
  rcases hn with rfl | hn
  · exact .inr ⟨rfl, rfl, hs⟩
  · exact .inl hn

theorem Edges.slotUnregister {sn : SlotNode} (h : Edges r) (hsn : r.slotNodeFor (some s) = some sn)
    (hin : sn.incoming = []) (hout : sn.outgoing = [])
    (hslots : r'.slots = r.slots.eraseP fun n => decide (n.slot = s))
    (hconns : r'.connections = r.connections) (hnext : r'.nextConn = r.nextConn)
    (hconn : r'.conn = r.conn) : Edges r' := by
  obtain ⟨hmem, rfl⟩ := slotNodeFor_some hsn
  have hkeep : ∀ t, t ≠ sn.slot → r.HasSlot t → r'.HasSlot t := by
    intro t hne ht
    obtain ⟨n, hn, rfl⟩ := mem_map.mp ht
    refine hasSlot_of_mem ?_
    rw [hslots, mem_eraseP_of_neg (by simpa using hne)]
    exact hn
  refine h.of_slots hconns hnext hconn (fun n hn => .inl (mem_of_mem_eraseP (hslots ▸ hn)))
    (fun c hc => hkeep _ (fun heq => ?_) (h.toSlot c hc)) fun c hc t ht => hkeep _ (fun heq => ?_)
      (h.fromSlot c hc t ht)
  · have := ((h.incoming sn hmem).2 c).mpr ⟨hc, heq⟩
    simp [hin] at this
  · have := ((h.outgoing sn hmem).2 c).mpr ⟨hc, heq ▸ ht⟩
    simp [hout] at this

/-- A new connection, at the head of the lists of its ends. -/
theorem Edges.connectionRegister {fromSlot : Option SlotId} {dst : SlotId} {cn : Connection}
    (h : Edges r) (hto : r.HasSlot dst) (hfrom : ∀ s, fromSlot = some s → r.HasSlot s)
    (hends : cn.toSlot = dst ∧ cn.fromSlot = fromSlot) (hconn : r'.conn = update r.conn r.nextConn cn)
    (hconns : r'.connections = r.nextConn :: r.connections) (hnext : r'.nextConn = r.nextConn + 1)
    (hslots : r'.slots = r.slots.map (relink (fun l => r.nextConn :: l) fromSlot dst)) : Edges r' := by
  obtain ⟨rfl, rfl⟩ := hends
  have hnew : r.nextConn ∉ r.connections := fun hmem => lt_irrefl _ (h.fresh _ hmem)
  have hself : r'.conn r.nextConn = cn := by rw [hconn, update_self]
  have hold : ∀ c ∈ r.connections, r'.conn c = r.conn c := fun c hc => by
    have hne : c ≠ r.nextConn := fun heq => hnew (heq ▸ hc)
    rw [hconn, update_of_ne hne]
  have hhas : ∀ s, r'.HasSlot s ↔ r.HasSlot s := hasSlot_congr (by rw [hslots, map_map]; rfl)
  -- The property that a list of connections is about, before and after.
  have hiff : ∀ (Q : Connection → Prop) c, c ∈ r'.connections ∧ Q (r'.conn c) ↔
      c = r.nextConn ∧ Q cn ∨ c ∈ r.connections ∧ Q (r.conn c) := by
    intro Q c
    rw [hconns, mem_cons, or_and_right]
    refine or_congr (and_congr_right fun heq => ?_) (and_congr_right fun hc => ?_)
    · rw [heq, hself]
    · rw [hold c hc]
  have hlist : ∀ (Q : Connection → Prop) [Decidable (Q cn)] {l}, Enumerates l
    (fun c => c ∈ r.connections ∧ Q (r.conn c)) →
      Enumerates (if Q cn then r.nextConn :: l else l) fun c => c ∈ r'.connections ∧ Q (r'.conn c) := by
    intro Q _ l hl
    split_ifs with hcn
    · refine (hl.cons fun hc => hnew hc.1).congr fun c => ?_
      rw [hiff Q]
      simp [hcn]
    · refine hl.congr fun c => ?_
      rw [hiff Q]
      simp [hcn]
  constructor
  · rw [hconns, nodup_cons]
    exact ⟨hnew, h.nodup⟩
  · intro n' hn'
    obtain ⟨n, hn, rfl⟩ := mem_map.mp (hslots ▸ hn')
    simpa only [relink, eq_comm] using hlist (fun cn => cn.toSlot = n.slot) (h.incoming n hn)
  · intro n' hn'
    obtain ⟨n, hn, rfl⟩ := mem_map.mp (hslots ▸ hn')
    simpa only [relink, eq_comm] using hlist (fun cn => cn.fromSlot = some n.slot) (h.outgoing n hn)
  · intro c hc
    rw [hhas]
    rcases (hiff (fun _ => True) c).mp ⟨hc, trivial⟩ with ⟨rfl, -⟩ | ⟨hc, -⟩
    · rwa [hself]
    · rw [hold c hc]
      exact h.toSlot c hc
  · intro c hc s hs
    rw [hhas]
    rcases (hiff (fun cn => cn.fromSlot = some s) c).mp ⟨hc, hs⟩ with ⟨-, hs⟩ | ⟨hc, hs⟩
    · exact hfrom s hs
    · exact h.fromSlot c hc s hs
  · intro c hc
    rw [hnext]
    rw [hconns, mem_cons] at hc
    rcases hc with rfl | hc
    · exact Nat.lt_succ_self _
    · exact (h.fresh c hc).trans (Nat.lt_succ_self _)

/-- A connection leaves all its lists. -/
theorem Edges.connectionUnregister {c₀ : ConnId} (h : Edges r) (hconn : r'.conn = r.conn)
    (hconns : r'.connections = r.connections.erase c₀) (hnext : r'.nextConn = r.nextConn)
    (hslots : r'.slots = r.slots.map (relink (fun l => l.erase c₀) (r.conn c₀).fromSlot
      (r.conn c₀).toSlot)) :
    Edges r' := by
  have hmem : ∀ c, c ∈ r'.connections ↔ c ≠ c₀ ∧ c ∈ r.connections := fun c => by
    rw [hconns, h.nodup.mem_erase_iff]
  have hhas : ∀ s, r'.HasSlot s ↔ r.HasSlot s := hasSlot_congr (by rw [hslots, map_map]; rfl)
  constructor
  · rw [hconns]
    exact h.nodup.erase c₀
  · intro n' hn'
    rw [hslots] at hn'
    obtain ⟨n, hn, rfl⟩ := mem_map.mp hn'
    simp only [relink, hconn, hmem, and_assoc]
    split_ifs with hdst
    · exact (h.incoming n hn).erase c₀
    · refine (h.incoming n hn).congr fun c => ?_
      refine ⟨fun hc => ⟨fun heq => hdst (heq ▸ hc.2.symm), hc⟩, fun hc => hc.2⟩
  · intro n' hn'
    rw [hslots] at hn'
    obtain ⟨n, hn, rfl⟩ := mem_map.mp hn'
    simp only [relink, hconn, hmem, and_assoc]
    split_ifs with hsrc
    · exact (h.outgoing n hn).erase c₀
    · refine (h.outgoing n hn).congr fun c => ?_
      refine ⟨fun hc => ⟨fun heq => hsrc (heq ▸ hc.2.symm), hc⟩, fun hc => hc.2⟩
  · intro c hc
    rw [hhas, hconn]
    exact h.toSlot c ((hmem c).mp hc).2
  · intro c hc s hs
    rw [hconn] at hs
    exact (hhas s).mpr (h.fromSlot c ((hmem c).mp hc).2 s hs)
  · intro c hc
    rw [hnext]
    exact h.fresh c ((hmem c).mp hc).2

theorem Edges.effect (h : Edges r) (hnames : Names r) (he : Effect r call r') : Edges r' := by
  cases he with
  | @slotRegister s hname hnew gen log =>
    refine h.slotRegister (fun hs => ?_) rfl rfl rfl rfl
    obtain ⟨n, hn, rfl⟩ := mem_map.mp hs
    exact hnew n hn rfl
  | slotSwap | slotSetFallback | slotSetPauseState => exact h.congr rfl rfl rfl fun _ => ⟨rfl, rfl⟩
  | slotUnregister hsn hin hout => exact h.slotUnregister hsn hin hout rfl rfl rfl rfl
  | componentRegister | componentUnregister | componentStateSet => exact h.congr rfl rfl rfl fun _ => ⟨rfl, rfl⟩
  | connectionRegister hto hfrom =>
    exact h.connectionRegister hto hfrom ⟨rfl, rfl⟩ rfl rfl rfl
      (relink_eq_map (f := fun l => r.nextConn :: l) hnames.slots_nodup)
  | @connectionRetune c mode stateful hc =>
    refine h.congr rfl rfl rfl fun c' => ?_
    dsimp only
    by_cases heq : c' = c
    · subst heq
      rw [update_self]
      exact ⟨rfl, rfl⟩
    · rw [update_of_ne heq]
      exact ⟨rfl, rfl⟩
  | @connectionUnregister c hc =>
    exact h.connectionUnregister rfl rfl rfl (relink_eq_map (f := fun l => l.erase c) hnames.slots_nodup)

/-! ### Every call -/

theorem Consistent.effect (h : Consistent r) (he : Effect r call r') :
    Consistent r' := ⟨h.counts.effect he, h.names.effect he, h.edges.effect h.names he⟩

/-- **Every call keeps the registry consistent.** -/
theorem Consistent.next (h : Consistent r) (call : RegCall) : Consistent (call.next r) :=
  call.next_inv h fun _ he => h.effect he

theorem consistent_boot (slot : SlotId → Slot) (comp : CompId → Component) :
    Consistent (bootRegistry slot comp) where
  counts := ⟨rfl, rfl, rfl⟩
  names := by constructor <;> simp [bootRegistry]
  edges := by constructor <;> simp [bootRegistry]

theorem consistent_run (slot : SlotId → Slot) (comp : CompId → Component) (calls : List RegCall) :
    Consistent (runFrom RegCall.next (bootRegistry slot comp) calls) :=
  runFrom_inv Consistent (fun _ call h => h.next call) (consistent_boot slot comp) calls

/-- **The lists of the registry agree**, after any calls, failed ones included; and a call that
fails leaves the registry as it is. -/
theorem registry_lists_agree (slot : SlotId → Slot) (comp : CompId → Component) (calls : List RegCall) :
    let r := runFrom RegCall.next (bootRegistry slot comp) calls
    (r.slotCount = r.slots.length ∧ r.componentCount = r.components.length ∧
        r.connectionCount = r.connections.length) ∧
      (r.slots.map fun n => (r.slot n.slot).name).Nodup ∧
      (∀ c, r.connections.count c ≤ 1) ∧
      (∀ n ∈ r.slots, ∀ c,
        n.incoming.count c = (if c ∈ r.connections ∧ (r.conn c).toSlot = n.slot then 1 else 0) ∧
        n.outgoing.count c = (if c ∈ r.connections ∧ (r.conn c).fromSlot = some n.slot then 1 else 0)) ∧
      (∀ c ∈ r.connections, r.HasSlot (r.conn c).toSlot ∧ ∀ s, (r.conn c).fromSlot = some s →
        r.HasSlot s) ∧
      ∀ call e, (RegCall.apply r call).2 = .error e → (RegCall.apply r call).1 = r := by
  intro r
  have h : Consistent r := consistent_run slot comp calls
  refine ⟨⟨h.counts.slots, h.counts.components, h.counts.connections⟩, h.names.nodup, ?_,
    fun n hn c => ⟨?_, ?_⟩, ?_, ?_⟩
  · exact nodup_iff_count_le_one.mp h.edges.nodup
  · exact (h.edges.incoming n hn).count_eq c
  · exact (h.edges.outgoing n hn).count_eq c
  · exact fun c hc => ⟨h.edges.toSlot c hc, h.edges.fromSlot c hc⟩
  · exact fun call e he => RegCall.apply_error he

end Nonux.Framework
