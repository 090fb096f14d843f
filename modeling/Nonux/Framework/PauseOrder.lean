import Nonux.Framework.GraphConsistency
import Nonux.Lib.Kahn

/-!
# The order in which slots are paused (`build_pause_order`)

A recomposition pauses the slots it changes and the slots that rewired connections lead to,
dependents first. `build_pause_order` collects these slots in an array of 32, collects the
connections between them in an array of 1024, and sorts them topologically (`Lib.Kahn`).

## What is proved

* `buildPauseOrder_perm`: the order has the collected slots, each as often as it was collected.
* `pause_order_correct`: when there is an order, and that it lists every slot once, dependents
  first.
-/

namespace Nonux.Framework

open Nonux.Lib Relation List Registry

/-! ### Plans -/

/-- `enum nx_slot_change_action`, or another number. -/
inductive SlotAction where
  | replace
  | other
  deriving DecidableEq, Repr

/-- `enum nx_conn_change_action`, or another number. -/
inductive ConnAction where
  | add
  | remove
  | rewire
  | other
  deriving DecidableEq, Repr

/-- `struct nx_slot_change`. -/
structure SlotChange where
  slot : Option SlotId
  action : SlotAction := .replace
  newComp : Option CompId
  stateLost : Bool := false
  deriving DecidableEq, Repr

/-- `struct nx_conn_change`. -/
structure ConnChange where
  fromSlot : Option SlotId
  toSlot : Option SlotId
  action : ConnAction
  mode : ConnMode := .async
  stateful : Bool := false
  policy : PausePolicy := .queue
  deriving DecidableEq, Repr

/-! ### Collecting slots -/

/-- `RECOMP_MAX_SLOTS`. -/
def recompMaxSlots : ℕ := 32

/-- `RECOMP_MAX_EDGES`. -/
def recompMaxEdges : ℕ := recompMaxSlots * recompMaxSlots

/-- The slots of the changes, one after the other. -/
def collectChanged (set : List SlotId) : List SlotId → Except Err (List SlotId)
  | [] => .ok set
  | s :: l => if recompMaxSlots ≤ set.length then .error .enomem else collectChanged (set ++ [s]) l

/-- The slots rewired connections lead to, without those that are there. -/
def collectRewired (set : List SlotId) : List ConnChange → Except Err (List SlotId)
  | [] => .ok set
  | cc :: l =>
    match cc.action, cc.toSlot with
    | .rewire, some t =>
      if t ∈ set then collectRewired set l
      else if recompMaxSlots ≤ set.length then .error .enomem
      else collectRewired (set ++ [t]) l
    | _, _ => collectRewired set l

/-! ### Collecting connections -/

/-- `scan_dep_cb`, for the connection `c` of the slot at place `i`: it is an edge if it leads to
a slot of the set, to the first place that has it. -/
def scanDepCb (r : Registry) (set : List SlotId) (i : Fin set.length)
    (edges : List (Fin set.length × Fin set.length)) (c : ConnId) :
    Except Err (List (Fin set.length × Fin set.length)) :=
  match (List.finRange set.length).find? fun j => set.get j = (r.conn c).toSlot with
  | none => .ok edges
  | some j => if recompMaxEdges ≤ edges.length then .error .enomem else .ok (edges ++ [(i, j)])

/-- The edges from every place of the set. -/
def scanDeps (r : Registry) (set : List SlotId) : Except Err (List (Fin set.length × Fin set.length)) :=
  (List.finRange set.length).foldlM
    (fun edges i => (r.nxSlotForeachDependency (some (set.get i))).foldlM (scanDepCb r set i) edges) []

/-- The slots of the set in order. -/
def sortSlots (r : Registry) (set : List SlotId) : Except Err (List SlotId) := do
  let edges ← scanDeps r set
  match Kahn.sort edges with
  | none => .error .einval
  | some order => .ok (order.map set.get)

/-- `build_pause_order`, for the slots of a plan's changes and its connection changes. -/
def buildPauseOrder (r : Registry) (changed : List SlotId) (conns : List ConnChange) : Except Err
    (List SlotId) := do
  let set ← collectChanged [] changed
  let set ← collectRewired set conns
  sortSlots r set

/-! ### The slots -/

/-- The slots rewired connections lead to. -/
def rewiredSlots (conns : List ConnChange) : List SlotId :=
  conns.filterMap fun cc => if cc.action = .rewire then cc.toSlot else none

/-- A list with what is new of another at its end, each once. -/
def appendNew (set : List SlotId) : List SlotId → List SlotId
  | [] => set
  | t :: l => appendNew (if t ∈ set then set else set ++ [t]) l

/-- The slots a plan affects. -/
def affectedSlots (changed : List SlotId) (conns : List ConnChange) : List SlotId :=
  appendNew changed (rewiredSlots conns)

theorem mem_appendNew (set l : List SlotId) (s : SlotId) : s ∈ appendNew set l ↔ s ∈ set ∨ s ∈ l := by
  induction l generalizing set with
  | nil => simp [appendNew]
  | cons t l ih =>
    rw [appendNew, ih]
    split_ifs with ht
    · constructor
      · rintro (h | h)
        · exact .inl h
        · exact .inr (mem_cons_of_mem _ h)
      · rintro (h | h)
        · exact .inl h
        · rcases mem_cons.mp h with rfl | h
          · exact .inl ht
          · exact .inr h
    · simp [or_assoc]

theorem mem_affectedSlots (changed : List SlotId) (conns : List ConnChange) (s : SlotId) :
    s ∈ affectedSlots changed conns ↔ s ∈ changed ++ rewiredSlots conns := by
  rw [affectedSlots, mem_appendNew, mem_append]

variable {set : List SlotId}

theorem appendNew_nodup (h : set.Nodup) (l : List SlotId) : (appendNew set l).Nodup := by
  induction l generalizing set with
  | nil => exact h
  | cons t l ih =>
    rw [appendNew]
    split_ifs with ht
    · exact ih h
    · exact ih (h.append (nodup_singleton t) (disjoint_singleton.mpr ht))

theorem length_le_appendNew (set l : List SlotId) : set.length ≤ (appendNew set l).length := by
  induction l generalizing set with
  | nil => exact le_rfl
  | cons t l ih =>
    rw [appendNew]
    split_ifs
    · exact ih set
    · exact (by simp : set.length ≤ (set ++ [t]).length).trans (ih _)

theorem collectChanged_eq (set l : List SlotId) (hset : set.length ≤ recompMaxSlots) :
    collectChanged set l = if (set ++ l).length ≤ recompMaxSlots then .ok (set ++ l) else .error
      .enomem := by
  induction l generalizing set with
  | nil => simp [collectChanged, hset]
  | cons s l ih =>
    rw [collectChanged]
    split_ifs with hfull hfit hfit
    · simp at hfit
      omega
    · rfl
    · rw [ih _ (by simp; omega), append_assoc, singleton_append, if_pos hfit]
    · rw [ih _ (by simp; omega), append_assoc, singleton_append, if_neg hfit]

theorem collectRewired_eq (set : List SlotId) (conns : List ConnChange)
    (hset : set.length ≤ recompMaxSlots) : collectRewired set conns =
      if (appendNew set (rewiredSlots conns)).length ≤ recompMaxSlots then
      .ok (appendNew set (rewiredSlots conns)) else .error .enomem := by
  induction conns generalizing set with
  | nil => simp [collectRewired, rewiredSlots, appendNew, hset]
  | cons cc l ih =>
    rw [collectRewired]
    split
    · rename_i t haction hto
      have hcons : rewiredSlots (cc :: l) = t :: rewiredSlots l := by simp [rewiredSlots, haction, hto]
      rw [hcons, appendNew]
      by_cases ht : t ∈ set
      · rw [if_pos ht, if_pos ht]
        exact ih set hset
      · rw [if_neg ht, if_neg ht]
        split_ifs with hfull hfit hfit
        · have := length_le_appendNew (set ++ [t]) (rewiredSlots l)
          simp only [length_append, length_singleton] at this
          omega
        · rfl
        · rw [ih _ (by simp; omega), if_pos hfit]
        · rw [ih _ (by simp; omega), if_neg hfit]
    · rename_i hno
      have hcons : rewiredSlots (cc :: l) = rewiredSlots l := by
        rw [rewiredSlots, filterMap_cons]
        split_ifs with haction
        · cases hto : cc.toSlot with
          | none => rfl
          | some t => exact absurd hto (hno t haction)
        · rfl
      rw [hcons]
      exact ih set hset

/-- The slots are collected if they fit. -/
theorem collect_eq (changed : List SlotId) (conns : List ConnChange) :
    (collectChanged [] changed >>= fun set => collectRewired set conns) =
      if (affectedSlots changed conns).length ≤ recompMaxSlots then .ok (affectedSlots changed conns)
      else .error .enomem := by
  rw [collectChanged_eq [] changed (by simp), nil_append]
  by_cases hfit : changed.length ≤ recompMaxSlots
  · rw [if_pos hfit]
    exact collectRewired_eq changed conns hfit
  · have := length_le_appendNew changed (rewiredSlots conns)
    rw [if_neg hfit, if_neg (by rw [affectedSlots]; omega)]
    rfl

/-! ### The connections -/

/-- The edge a connection of the slot at place `i` makes, if it leads to a slot of the set. -/
def edgeOf (r : Registry) (set : List SlotId) (i : Fin set.length) (c : ConnId) :
    Option (Fin set.length × Fin set.length) :=
  ((List.finRange set.length).find? fun j => set.get j = (r.conn c).toSlot).map fun j => (i, j)

/-- The edges from one place. -/
def edgesFrom (r : Registry) (set : List SlotId) (i : Fin set.length) :
    List (Fin set.length × Fin set.length) :=
  (r.nxSlotForeachDependency (some (set.get i))).flatMap fun c => (edgeOf r set i c).toList

/-- The edges from all places. -/
def inducedEdges (r : Registry) (set : List SlotId) : List (Fin set.length × Fin set.length) :=
  (List.finRange set.length).flatMap (edgesFrom r set)

/-- Appending one by one up to a limit: all of it, or none. -/
theorem foldlM_append_limit {α β : Type} {f : List β → α → Except Err (List β)} {g : α → List β}
    {max : ℕ} (hf : ∀ l a, l.length ≤ max →
      f l a = if (l ++ g a).length ≤ max then .ok (l ++ g a) else .error .enomem)
    (as : List α) (l : List β) (hl : l.length ≤ max) :
    as.foldlM f l = if (l ++ as.flatMap g).length ≤ max then .ok (l ++ as.flatMap g) else .error
      .enomem := by
  induction as generalizing l with
  | nil => simp [hl]; rfl
  | cons a as ih =>
    rw [foldlM_cons, hf l a hl]
    by_cases hfit : (l ++ g a).length ≤ max
    · rw [if_pos hfit]
      show as.foldlM f (l ++ g a) = _
      rw [ih _ hfit, flatMap_cons, append_assoc]
    · rw [if_neg hfit, if_neg]
      · rfl
      · simp only [length_append, flatMap_cons] at hfit ⊢
        omega

theorem scanDepCb_eq (r : Registry) (set : List SlotId) (i : Fin set.length)
    (edges : List (Fin set.length × Fin set.length)) (c : ConnId) (h : edges.length ≤ recompMaxEdges) :
    scanDepCb r set i edges c =
      if (edges ++ (edgeOf r set i c).toList).length ≤ recompMaxEdges then
      .ok (edges ++ (edgeOf r set i c).toList) else .error .enomem := by
  rw [scanDepCb, edgeOf]
  cases (List.finRange set.length).find? fun j => set.get j = (r.conn c).toSlot with
  | none => simp [h]
  | some j =>
    simp only [Option.map_some, Option.toList_some, length_append, length_singleton]
    split_ifs with hfull hfit hfit
    · omega
    · rfl
    · rfl
    · omega

/-- The connections are collected if they fit. -/
theorem scanDeps_eq (r : Registry) (set : List SlotId) :
    scanDeps r set =
      if (inducedEdges r set).length ≤ recompMaxEdges then .ok (inducedEdges r set) else .error
      .enomem := by
  have hfrom : ∀ edges i, edges.length ≤ recompMaxEdges →
      (r.nxSlotForeachDependency (some (set.get i))).foldlM (scanDepCb r set i) edges =
        if (edges ++ edgesFrom r set i).length ≤ recompMaxEdges then .ok (edges ++ edgesFrom r set i)
        else .error .enomem :=
    fun edges i h => foldlM_append_limit (scanDepCb_eq r set i) _ edges h
  exact foldlM_append_limit hfrom (List.finRange set.length) [] (Nat.zero_le _)

/-- **What `build_pause_order` computes.** -/
theorem buildPauseOrder_eq (r : Registry) (changed : List SlotId) (conns : List ConnChange) :
    buildPauseOrder r changed conns =
      if recompMaxSlots < (affectedSlots changed conns).length then .error .enomem
      else if recompMaxEdges < (inducedEdges r (affectedSlots changed conns)).length then .error .enomem
      else match Kahn.sort (inducedEdges r (affectedSlots changed conns)) with
        | none => .error .einval
        | some order => .ok (order.map (affectedSlots changed conns).get) := by
  have hcollect : buildPauseOrder r changed conns =
      (collectChanged [] changed >>= fun set => collectRewired set conns) >>= sortSlots r := by
    rw [bind_assoc]
    rfl
  rw [hcollect, collect_eq]
  by_cases hslots : (affectedSlots changed conns).length ≤ recompMaxSlots
  · rw [if_pos hslots, if_neg (not_lt.mpr hslots)]
    show sortSlots r (affectedSlots changed conns) = _
    rw [sortSlots, scanDeps_eq]
    by_cases hedges : (inducedEdges r (affectedSlots changed conns)).length ≤ recompMaxEdges
    · rw [if_pos hedges, if_neg (not_lt.mpr hedges)]
      cases hsort : Kahn.sort (inducedEdges r (affectedSlots changed conns)) <;>
        simp [bind, Except.bind, hsort]
    · rw [if_neg hedges, if_pos (not_le.mp hedges)]
      rfl
  · rw [if_neg hslots, if_pos (not_le.mp hslots)]
    rfl

variable {r : Registry}

/-- The order has the affected slots, each as often as it was collected. -/
theorem buildPauseOrder_perm {changed : List SlotId} {conns : List ConnChange} {order : List SlotId}
    (h : buildPauseOrder r changed conns = .ok order) : order.Perm (affectedSlots changed conns) := by
  rw [buildPauseOrder_eq] at h
  split_ifs at h
  cases hsort : Kahn.sort (inducedEdges r (affectedSlots changed conns)) with
  | none =>
    rw [hsort] at h
    cases h
  | some places =>
    rw [hsort] at h
    cases h
    obtain ⟨hnodup, hall, -⟩ := Kahn.sort_some hsort
    have hperm : places.Perm (List.finRange (affectedSlots changed conns).length) :=
      (perm_ext_iff_of_nodup hnodup (nodup_finRange _)).mpr fun i => by simp [hall i]
    simpa using hperm.map (affectedSlots changed conns).get

/-! ### Correctness -/

/-- A connection leads from one slot to the other. -/
def Registry.Depends (r : Registry) (s t : SlotId) : Prop :=
  ∃ c ∈ r.nxSlotForeachDependency (some s), (r.conn c).toSlot = t

theorem mem_edgeOf (hset : set.Nodup) {i j k : Fin set.length} {c : ConnId} :
    edgeOf r set i c = some (k, j) ↔ k = i ∧ (r.conn c).toSlot = set.get j := by
  rw [edgeOf, Option.map_eq_some_iff]
  constructor
  · rintro ⟨j', hj', heq⟩
    cases heq
    exact ⟨rfl, by simpa [eq_comm] using find?_some hj'⟩
  · rintro ⟨rfl, hto⟩
    have hsome : ((List.finRange set.length).find? fun j => set.get j = (r.conn c).toSlot).isSome := by
      rw [find?_isSome]
      exact ⟨j, mem_finRange j, by simp [hto]⟩
    obtain ⟨j', hj'⟩ := Option.isSome_iff_exists.mp hsome
    have hget : set.get j' = set.get j := hto ▸ (by simpa using find?_some hj')
    exact ⟨j', hj', by rw [hset.injective_get hget]⟩

/-- The edges between places are the connections between the slots there. -/
theorem mem_inducedEdges (hset : set.Nodup) (i j : Fin set.length) :
    (i, j) ∈ inducedEdges r set ↔ r.Depends (set.get i) (set.get j) := by
  simp only [inducedEdges, edgesFrom, mem_flatMap, mem_finRange, true_and, Option.mem_toList,
    mem_edgeOf hset, Registry.Depends]
  constructor
  · rintro ⟨k, c, hc, rfl, hto⟩
    exact ⟨c, hc, hto⟩
  · rintro ⟨c, hc, hto⟩
    exact ⟨i, c, hc, rfl, hto⟩

/-- The connections between the slots of a set. -/
def Registry.DependsIn (r : Registry) (set : List SlotId) (s t : SlotId) : Prop :=
  s ∈ set ∧ t ∈ set ∧ r.Depends s t

/-- Places lead to themselves just when their slots do. -/
theorem transGen_places_iff (hset : set.Nodup) :
    (∀ i, ¬ TransGen (fun i j => (i, j) ∈ inducedEdges r set) i i) ↔
    ∀ s, ¬ TransGen (r.DependsIn set) s s := by
  constructor
  · intro h s hcycle
    have hlift : ∀ s t, TransGen (r.DependsIn set) s t → ∀ i, set.get i = s →
        ∃ j, set.get j = t ∧ TransGen (fun i j => (i, j) ∈ inducedEdges r set) i j := by
      intro s t hpath
      induction hpath with
      | single hst =>
        rintro i rfl
        obtain ⟨j, rfl⟩ := get_of_mem hst.2.1
        exact ⟨j, rfl, .single ((mem_inducedEdges hset i j).mpr hst.2.2)⟩
      | tail _ htu ih =>
        rintro i rfl
        obtain ⟨j, rfl, hij⟩ := ih i rfl
        obtain ⟨k, rfl⟩ := get_of_mem htu.2.1
        exact ⟨k, rfl, hij.tail ((mem_inducedEdges hset j k).mpr htu.2.2)⟩
    have hs : s ∈ set := by
      cases hcycle with
      | single hst => exact hst.1
      | tail _ hst => exact hst.2.1
    obtain ⟨i, rfl⟩ := get_of_mem hs
    obtain ⟨j, hj, hpath⟩ := hlift _ _ hcycle i rfl
    rw [hset.injective_get hj] at hpath
    exact h i hpath
  · intro h i hcycle
    refine h (set.get i) (TransGen.lift set.get ?_ i i hcycle)
    intro i j hij
    exact ⟨get_mem set i, get_mem set j, (mem_inducedEdges hset i j).mp hij⟩

/-- How many connections there are between the slots of a set. -/
def Registry.connectionsIn (r : Registry) (set : List SlotId) : ℕ :=
  (set.flatMap fun s => (r.nxSlotForeachDependency (some s)).filter
    fun c => (r.conn c).toSlot ∈ set).length

theorem edgesFrom_length (r : Registry) (set : List SlotId) (i : Fin set.length) :
    (edgesFrom r set i).length =
      ((r.nxSlotForeachDependency (some (set.get i))).filter
        fun c => (r.conn c).toSlot ∈ set).length := by
  rw [edgesFrom]
  induction r.nxSlotForeachDependency (some (set.get i)) with
  | nil => rfl
  | cons c cs ih =>
    have hone : (edgeOf r set i c).toList.length = if (r.conn c).toSlot ∈ set then 1 else 0 := by
      have hsome : (edgeOf r set i c).isSome ↔ (r.conn c).toSlot ∈ set := by
        rw [edgeOf, Option.isSome_map, find?_isSome, mem_iff_get (l := set)]
        simp
      cases hedge : edgeOf r set i c with
      | none | some e => simpa [hedge] using hsome
    rw [flatMap_cons, length_append, hone, ih, filter_cons]
    by_cases hc : (r.conn c).toSlot ∈ set
    · simp [hc, Nat.add_comm]
    · simp [hc]

theorem inducedEdges_length (r : Registry) (set : List SlotId) :
    (inducedEdges r set).length = r.connectionsIn set := by
  have hset : ∀ f : SlotId → ℕ, set.map f = (List.finRange set.length).map fun i => f (set.get i) := by
    intro f
    have := congrArg (List.map f) (map_get_finRange set)
    rwa [List.map_map, eq_comm] at this
  rw [inducedEdges, connectionsIn, length_flatMap, length_flatMap, hset]
  exact congrArg List.sum (map_congr_left fun i _ => edgesFrom_length r set i)

/-- Slots `1` and `2`, and `k` connections from the one to the other. -/
def wired (k : ℕ) : List RegCall :=
  .slotRegister (some 1) true :: .slotRegister (some 2) true ::
    List.replicate k (.connectionRegister (some 1) (some 2) .async false .queue true true)

/-- The graph after these calls. -/
def wiredGraph (k : ℕ) : Registry :=
  runFrom RegCall.next (bootRegistry (fun s => { name := some (toString s) }) fun _ => {}) (wired k)

/-- **The pause order**, for a plan whose changes name no slot twice. It is there exactly when the
connections between the plan's slots fit and have no cycle; too many are an error of their own.
The order lists each slot of the plan once, every slot before those it depends on. -/
theorem pause_order_correct (r : Registry) (changed : List SlotId) (conns : List ConnChange)
    (hnodup : changed.Nodup) (hslots : (changed ++ rewiredSlots conns).toFinset.card ≤ recompMaxSlots) :
    ((∃ order, buildPauseOrder r changed conns = .ok order) ↔
      r.connectionsIn (affectedSlots changed conns) ≤ recompMaxEdges ∧
        ∀ s, ¬ TransGen (r.DependsIn (changed ++ rewiredSlots conns)) s s) ∧
    (recompMaxEdges < r.connectionsIn (affectedSlots changed conns) →
      buildPauseOrder r changed conns = .error .enomem) ∧
    ∀ order, buildPauseOrder r changed conns = .ok order →
      order.Nodup ∧ (∀ s, s ∈ order ↔ s ∈ changed ++ rewiredSlots conns) ∧
        ∀ s t, r.DependsIn (changed ++ rewiredSlots conns) s t →
        ∀ pre post, order = pre ++ t :: post → s ∈ pre := by
  have hmem := mem_affectedSlots changed conns
  have hset : (affectedSlots changed conns).Nodup := appendNew_nodup hnodup _
  have hlen : (affectedSlots changed conns).length ≤ recompMaxSlots := by
    rw [← toFinset_card_of_nodup hset]
    exact (Finset.card_le_card fun s hs => by simpa [hmem] using hs).trans hslots
  have hdep : r.DependsIn (changed ++ rewiredSlots conns) = r.DependsIn
      (affectedSlots changed conns) := by
    funext s t
    simp only [Registry.DependsIn, hmem]
  rw [hdep, ← transGen_places_iff hset, ← Kahn.sort_isSome_iff, buildPauseOrder_eq,
    if_neg (not_lt.mpr hlen), inducedEdges_length]
  by_cases hfull : recompMaxEdges < r.connectionsIn (affectedSlots changed conns)
  · rw [if_pos hfull]
    simp [hfull]
  · rw [if_neg hfull]
    cases hsort : Kahn.sort (inducedEdges r (affectedSlots changed conns)) with
    | none => simp [hfull]
    | some places =>
      refine ⟨by simp [not_lt.mp hfull], fun hno => absurd hno hfull, ?_⟩
      rintro order ⟨⟩
      obtain ⟨hnodup, hall, hbefore⟩ := Kahn.sort_some hsort
      refine ⟨hnodup.map hset.injective_get, fun s => ?_, ?_⟩
      · rw [← hmem, mem_map, mem_iff_get]
        exact ⟨fun ⟨i, _, hi⟩ => ⟨i, hi⟩, fun ⟨i, hi⟩ => ⟨i, hall i, hi⟩⟩
      · rintro s t ⟨hs, ht, hst⟩ pre post heq
        obtain ⟨i, rfl⟩ := get_of_mem hs
        obtain ⟨j, rfl⟩ := get_of_mem ht
        obtain ⟨pre', post', rfl, rfl, htail⟩ := map_eq_append_iff.mp heq
        obtain ⟨j', post'', rfl, hj', -⟩ := map_eq_cons_iff.mp htail
        obtain rfl := hset.injective_get hj'
        exact mem_map_of_mem (hbefore (i, j') ((mem_inducedEdges hset i j').mpr hst) pre' post'' rfl)

/-- Slot `1` depends on slot `2`, and both are changed: `1` comes first. -/
theorem pause_order_dependent_first :
    buildPauseOrder (wiredGraph 1) [2, 1] [] = .ok [1, 2] ∧
      ∀ s, ¬ TransGen ((wiredGraph 1).DependsIn [2, 1]) s s := by
  have hsorted : buildPauseOrder (wiredGraph 1) [2, 1] [] = .ok [1, 2] := by decide +kernel
  exact ⟨hsorted, ((pause_order_correct _ [2, 1] [] (by decide) (by decide)).1.mp ⟨_, hsorted⟩).2⟩

/-- A slot that is changed twice is listed twice. -/
example : buildPauseOrder (wiredGraph 0) [1, 1] [] = .ok [1, 1] := by decide +kernel

/-- The lists of the graph of `k` connections. -/
theorem wiredGraph_lists (k : ℕ) :
    (wiredGraph k).slots =
        [{ slot := 2, incoming := (List.range k).reverse },
          { slot := 1, outgoing := (List.range k).reverse }] ∧
      (wiredGraph k).nextConn = k ∧ ∀ c < k, ((wiredGraph k).conn c).toSlot = 2 := by
  induction k with
  | zero => decide +kernel
  | succ k ih =>
    obtain ⟨hslots, hnext, hconn⟩ := ih
    have hrun : wiredGraph (k + 1) =
        (RegCall.connectionRegister (some 1) (some 2) .async false .queue true true).next
          (wiredGraph k) := by
      rw [wiredGraph, wired, replicate_succ', ← cons_append, ← cons_append, runFrom_append]
      rfl
    rw [hrun]
    simp [RegCall.next, RegCall.apply, nxConnectionRegister, slotNodeFor, hslots, hnext,
      slotAddIncoming, slotAddOutgoing, updateNode, bumpGen, modifyConn,
      emitEvent, range_succ]
    intro c hc
    by_cases heq : c = k
    · simp [heq]
    · simp [heq, hconn c (by omega)]

theorem wiredGraph_dependencies (k : ℕ) :
    (wiredGraph k).nxSlotForeachDependency (some 1) = (List.range k).reverse ∧
      ∀ s ≠ 1, (wiredGraph k).nxSlotForeachDependency (some s) = [] := by
  obtain ⟨hslots, -, -⟩ := wiredGraph_lists k
  refine ⟨by simp [nxSlotForeachDependency, slotNodeFor, hslots], fun s hs => ?_⟩
  by_cases h2 : s = 2
  · simp [nxSlotForeachDependency, slotNodeFor, hslots, h2]
  · simp [nxSlotForeachDependency, slotNodeFor, hslots, Ne.symm hs, Ne.symm h2]

theorem wiredGraph_acyclic (k : ℕ) (set : List SlotId) (s : SlotId) :
    ¬ TransGen ((wiredGraph k).DependsIn set) s s := by
  obtain ⟨hout, hnone⟩ := wiredGraph_dependencies k
  have hedge : ∀ s t, (wiredGraph k).DependsIn set s t → s = 1 ∧ t = 2 := by
    rintro s t ⟨-, -, c, hc, rfl⟩
    by_cases hs : s = 1
    · subst hs
      rw [hout, mem_reverse, mem_range] at hc
      exact ⟨rfl, (wiredGraph_lists k).2.2 c hc⟩
    · rw [hnone s hs] at hc
      cases hc
  intro hcycle
  obtain ⟨t, hst, -⟩ := TransGen.head'_iff.mp hcycle
  obtain ⟨u, -, hus⟩ := TransGen.tail'_iff.mp hcycle
  exact absurd ((hedge _ _ hst).1.symm.trans (hedge _ _ hus).2) (by decide)

theorem wiredGraph_connectionsIn (k : ℕ) : (wiredGraph k).connectionsIn [1, 2] = k := by
  obtain ⟨hout, hnone⟩ := wiredGraph_dependencies k
  have hall : ((List.range k).reverse.filter fun c => ((wiredGraph k).conn c).toSlot ∈ [1, 2]) =
      (List.range k).reverse := by
    refine filter_eq_self.mpr fun c hc => ?_
    rw [mem_reverse, mem_range] at hc
    simp [(wiredGraph_lists k).2.2 c hc]
  rw [connectionsIn, flatMap_cons, flatMap_singleton, hout, hnone 2 (by decide), hall]
  simp

/-- Too many connections for the array, though without a cycle. -/
theorem pause_order_overflows :
    ([1, 2] ++ rewiredSlots []).toFinset.card ≤ recompMaxSlots ∧
      (∀ s, ¬ TransGen ((wiredGraph 1025).DependsIn ([1, 2] ++ rewiredSlots [])) s s) ∧
        buildPauseOrder (wiredGraph 1025) [1, 2] [] = .error .enomem := by
  refine ⟨by decide, wiredGraph_acyclic 1025 _, ?_⟩
  have hset : affectedSlots [1, 2] [] = [1, 2] := by decide
  rw [buildPauseOrder_eq, if_neg (by decide), if_pos]
  rw [inducedEdges_length, hset, wiredGraph_connectionsIn]
  decide

end Nonux.Framework
