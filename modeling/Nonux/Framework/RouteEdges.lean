import Nonux.Framework.IpcLogic

/-!
# The connections the router looks at

The router takes the first connection it finds from one slot to another, in the order of the
slot's list, and a new connection is the first of that list. `edgesTo` is the list of all of them;
what each call of the registry does to it is said here, for a registry that is consistent.
-/

namespace Nonux.Framework

open Nonux.Lib Function List Registry

namespace Registry

/-- The connections from one slot to another, the newest first. -/
def edgesTo (r : Registry) (src dst : SlotId) : List ConnId :=
  (r.nxSlotForeachDependency (some src)).filter fun c => decide ((r.conn c).toSlot = dst)

/-- A connection that leads from one slot to another. -/
def IsEdge (r : Registry) (src dst : SlotId) (c : ConnId) : Prop :=
  c ∈ r.connections ∧ (r.conn c).fromSlot = some src ∧ (r.conn c).toSlot = dst

end Registry

theorem findEdge_eq_head? (r : Registry) (src dst : SlotId) :
    findEdge r src dst = (r.edgesTo src dst).head? := by
  rw [findEdge, edgesTo, head?_filter]

/-! ### The list of a slot -/

variable {r : Registry}

/-- The outgoing list of a slot that is registered. -/
theorem nxSlotForeachDependency_eq (h : Names r) {n : SlotNode} (hn : n ∈ r.slots) :
    r.nxSlotForeachDependency (some n.slot) = n.outgoing := by
  have hfind : r.slots.find? (fun m => decide (m.slot = n.slot)) = some n := by
    rw [find?_eq_some_iff_getElem]
    obtain ⟨i, hi, rfl⟩ := getElem_of_mem hn
    refine ⟨by simp, i, hi, rfl, fun j hj => ?_⟩
    have hne : r.slots[j].slot ≠ r.slots[i].slot := by
      intro heq
      have hnodup := h.slots_nodup
      rw [nxGraphForeachSlot, nodup_iff_injective_get] at hnodup
      have := @hnodup ⟨j, by simpa using hj.trans hi⟩ ⟨i, by simpa using hi⟩ (by simpa using heq)
      simp only [Fin.mk.injEq] at this
      omega
    simpa using hne
  simp [nxSlotForeachDependency, slotNodeFor, hfind]

theorem nxSlotForeachDependency_of_not_hasSlot {s : SlotId} (h : ¬ r.HasSlot s) :
    r.nxSlotForeachDependency (some s) = [] := by
  rw [nxSlotForeachDependency, slotNodeFor_eq_none_iff.mpr h]
  rfl

variable {dst : SlotId} {c : ConnId}

/-- **The list has the connections between the two slots.** -/
theorem mem_edgesTo (h : Consistent r) {src : SlotId} : c ∈ r.edgesTo src dst ↔ r.IsEdge src dst c := by
  rw [edgesTo, mem_filter, decide_eq_true_eq, Registry.IsEdge, ← and_assoc, (h.dependencies src).2]

theorem findEdge_isSome_iff (h : Consistent r) {src : SlotId} :
    (findEdge r src dst).isSome ↔ ∃ c, r.IsEdge src dst c := by
  rw [findEdge_eq_head?, isSome_head?, ne_eq, eq_nil_iff_forall_not_mem, not_forall]
  simp only [not_not, mem_edgesTo h]

theorem isEdge_of_findEdge (h : Consistent r) {src : SlotId} (hc : findEdge r src dst = some c) :
    r.IsEdge src dst c := by
  rw [findEdge_eq_head?] at hc
  exact (mem_edgesTo h).mp (mem_of_mem_head? hc)

/-! ### What calls do to the list -/

variable {r' : Registry} {fromSlot : Option SlotId}

/-- The outgoing lists, when nodes are rewritten. -/
theorem nxSlotForeachDependency_relink (h : Names r) {f : List ConnId → List ConnId}
    (hslots : r'.slots = r.slots.map (relink f fromSlot dst)) (hname : r'.slot = r.slot)
    (hfrom : ∀ s, fromSlot = some s → r.HasSlot s) (s : SlotId) :
    r'.nxSlotForeachDependency (some s) =
      if fromSlot = some s then f (r.nxSlotForeachDependency (some s))
      else r.nxSlotForeachDependency (some s) := by
  have hmap : r'.slots.map (·.slot) = r.slots.map (·.slot) := by
    rw [hslots, map_map]
    rfl
  by_cases hs : r.HasSlot s
  · have hnames : Names r' := h.congr (fun t => by rw [hname]) hmap
    obtain ⟨n, hn, rfl⟩ := mem_map.mp hs
    have hn' : relink f fromSlot dst n ∈ r'.slots := hslots ▸ mem_map_of_mem hn
    have heq := nxSlotForeachDependency_eq hnames hn'
    rw [nxSlotForeachDependency_eq h hn]
    simpa only [relink, eq_comm] using heq
  · rw [if_neg fun heq => hs (hfrom s heq), nxSlotForeachDependency_of_not_hasSlot hs,
      nxSlotForeachDependency_of_not_hasSlot ((hasSlot_congr hmap s).not.mpr hs)]

variable {mode : ConnMode} {stateful : Bool}

/-- What is left to say of a registration that succeeds. -/
theorem Effect.registered (h : Names r) {policy : PausePolicy}
    (he : Effect r (.connectionRegister fromSlot (some dst) mode stateful policy true true) r') :
    r'.slot = r.slot ∧ r'.conn = update r.conn r.nextConn ⟨fromSlot, dst, mode, stateful, policy⟩ ∧
      r'.slots = r.slots.map (relink (fun l => r.nextConn :: l) fromSlot dst) ∧
      ∀ s, fromSlot = some s → r.HasSlot s := by
  cases he with
  | connectionRegister hto hfrom gen log =>
    exact ⟨rfl, rfl, relink_eq_map (f := fun l => r.nextConn :: l) h.slots_nodup, hfrom⟩

/-- What is left to say of a connection that is unregistered. -/
theorem Effect.unregistered (h : Names r) (he : Effect r (.connectionUnregister (some c)) r') :
    r'.slot = r.slot ∧ r'.conn = r.conn ∧ c ∈ r.connections ∧
      r'.slots = r.slots.map (relink (fun l => l.erase c) (r.conn c).fromSlot (r.conn c).toSlot) := by
  cases he with
  | connectionUnregister hc gen log =>
    exact ⟨rfl, rfl, hc, relink_eq_map (f := fun l => l.erase c) h.slots_nodup⟩

/-- A new connection is the first of its list. -/
theorem edgesTo_connectionRegister (h : Consistent r) {to' : SlotId} {policy : PausePolicy}
    (he : Effect r (.connectionRegister fromSlot (some to') mode stateful policy true true) r')
    (src dst : SlotId) : r'.edgesTo src dst =
      if fromSlot = some src ∧ to' = dst then r.nextConn :: r.edgesTo src dst
      else r.edgesTo src dst := by
  obtain ⟨hslot, hconn, hslots, hfrom⟩ := he.registered h.names
  have hold : ∀ c ∈ r.nxSlotForeachDependency (some src), c ≠ r.nextConn := by
    intro c hc heq
    exact absurd (h.edges.fresh c (((h.dependencies src).2 c).mp hc).1) (by rw [heq]; exact lt_irrefl _)
  have htail : ((r.nxSlotForeachDependency (some src)).filter fun c => decide
    ((r'.conn c).toSlot = dst)) =
      r.edgesTo src dst := by
    refine filter_congr fun c hc => ?_
    rw [hconn, update_of_ne (hold c hc)]
  rw [edgesTo, nxSlotForeachDependency_relink h.names hslots hslot hfrom src]
  by_cases hsrc : fromSlot = some src
  · rw [if_pos hsrc, filter_cons, htail, hconn, update_self]
    by_cases hdst : to' = dst
    · simp [hsrc, hdst]
    · simp [hdst]
  · rw [if_neg hsrc, if_neg fun hboth => hsrc hboth.1]
    exact htail

/-- A connection that goes leaves the list. -/
theorem edgesTo_connectionUnregister (h : Consistent r)
    (he : Effect r (.connectionUnregister (some c)) r') (src dst : SlotId) :
    r'.edgesTo src dst = (r.edgesTo src dst).erase c := by
  obtain ⟨hslot, hconn, hc, hslots⟩ := he.unregistered h.names
  have hlist := (h.dependencies src).1
  rw [edgesTo, nxSlotForeachDependency_relink h.names hslots hslot (h.edges.fromSlot c hc) src, hconn]
  by_cases hsrc : (r.conn c).fromSlot = some src
  · rw [if_pos hsrc, edgesTo, hlist.erase_eq_filter, (hlist.filter _).erase_eq_filter, filter_filter,
      filter_filter]
    exact filter_congr fun _ _ => Bool.and_comm _ _
  · have hno : c ∉ r.edgesTo src dst := fun hmem => hsrc ((mem_edgesTo h).mp hmem).2.1
    rw [if_neg hsrc, erase_of_not_mem hno]
    rfl

/-- The ends of a connection stay when it is retuned. -/
theorem edgesTo_connectionRetune (he : Effect r (.connectionRetune (some c) mode stateful) r')
    (src dst : SlotId) : r'.edgesTo src dst = r.edgesTo src dst := by
  cases he with
  | connectionRetune hc gen log =>
    have hto : ∀ c', (update r.conn c { r.conn c with mode, stateful } c').toSlot =
        (r.conn c').toSlot := by
      intro c'
      by_cases heq : c' = c
      · rw [heq, update_self]
      · rw [update_of_ne heq]
    exact filter_congr fun c' _ => congrArg (fun t => decide (t = dst)) (hto c')

end Nonux.Framework
