import Mathlib.Tactic

/-!
# Depth-first search for a cycle

The search keeps a stack of nodes with the number of successors that have been looked at. A node is
white before it is reached, gray while it is on the stack and black when it is left. A successor
that is gray is on the stack below, and closes a cycle.

* `findCycle_ends`: the search ends, with a cycle or, if no node leads to itself, with nothing.

The search is given a number of turns of its inner loop, and the way up from a node as many as there
are nodes on the stack; `explore_ends` says how many are enough.
-/

namespace Nonux.Lib.Dfs

open Relation Function List

inductive Colour where
  | white | gray | black
  deriving DecidableEq, Repr

variable {α : Type} [DecidableEq α]

structure Search (α : Type) where
  colour : α → Colour
  parent : α → Option α
  /-- The nodes that are being explored, the last first, and how many of their successors have been
  looked at. -/
  stack : List (α × ℕ) := []

/-- Follow parents up to a node. Nothing comes out if there are more than so many. -/
def pathUp (parent : α → Option α) (stop : α) : ℕ → Option α → Option (List α)
  | 0, _ => none
  | _ + 1, none => some []
  | fuel + 1, some p => if p = stop then some [] else (pathUp parent stop fuel (parent p)).map (p :: ·)

/-- The cycle that the edge from `node` to `nxt` closes. -/
def cycleThrough (w : Search α) (node nxt : α) : Option (List α) :=
  if nxt = node then some [nxt, nxt]
  else (pathUp w.parent nxt w.stack.length (w.parent node)).map
    fun up => ([nxt, node] ++ up ++ [nxt]).reverse

/-- The inner loop. Nothing comes out if it is not over after so many turns. -/
def explore (succ : α → List α) : ℕ → Search α → Option (Except (List α) (Search α))
  | 0, w => if w.stack = [] then some (.ok w) else none
  | turns + 1, w =>
    match w.stack with
    | [] => some (.ok w)
    | (node, idx) :: rest =>
      match (succ node)[idx]? with
      | none => explore succ turns { w with colour := update w.colour node .black, stack := rest }
      | some nxt =>
        match w.colour nxt with
        | .gray => (cycleThrough w node nxt).map .error
        | .white => explore succ turns
          { colour := update w.colour nxt .gray
            parent := update w.parent nxt (some node)
            stack := (nxt, 0) :: (node, idx + 1) :: rest }
        | .black => explore succ turns { w with stack := (node, idx + 1) :: rest }

/-- The search before a root is explored. -/
def Search.enter (w : Search α) (root : α) : Search α :=
  { colour := update w.colour root .gray
    parent := update w.parent root none
    stack := [(root, 0)] }

/-- The outer loop. -/
def searchFrom (succ : α → List α) (turns : ℕ) : List α → Search α → Option (Option (List α))
  | [], _ => some none
  | root :: roots, w =>
    if w.colour root ≠ .white then searchFrom succ turns roots w
    else
      match explore succ turns (w.enter root) with
      | none => none
      | some (.error cycle) => some (some cycle)
      | some (.ok w') => searchFrom succ turns roots w'

/-- A node for each that is entered, and one for each of its edges. -/
def enough (succ : α → List α) (nodes : List α) : ℕ := (nodes.map fun n => (succ n).length + 1).sum

def start (nodes : List α) : Search α :=
  { colour := fun n => if n ∈ nodes then .white else .black, parent := fun _ => none }

/-- A cycle of the graph, if there is one, exploring the nodes in the order they are listed. -/
def findCycle (succ : α → List α) (nodes : List α) : Option (List α) :=
  (searchFrom succ (enough succ nodes) nodes (start nodes)).getD none

/-! ### What the search keeps -/

variable {succ : α → List α} {nodes : List α}

section Inv

omit [DecidableEq α]

/-- What has been looked at is left, or is what is being explored above. -/
def Looked (colour : α → Colour) (succ : α → List α) : Option α → List (α × ℕ) → Prop
  | _, [] => True
  | above, (node, idx) :: rest =>
    (∀ m ∈ (succ node).take idx, colour m = .black ∨ above = some m) ∧
    Looked colour succ (some node) rest

/-- A node was reached from another one. -/
def Links (succ : α → List α) (parent : α → Option α) (a b : α) : Prop := parent a = some b ∧ a ∈ succ b

/-- What is left leads to what is left only, and not to itself. The stack is a path, the last node
first. -/
structure Inv (succ : α → List α) (nodes : List α) (w : Search α) : Prop where
  white : ∀ n, w.colour n = .white → n ∈ nodes
  gray : ∀ n, w.colour n = .gray ↔ n ∈ w.stack.map Prod.fst
  nodup : (w.stack.map Prod.fst).Nodup
  closed : ∀ n, w.colour n = .black → ∀ m ∈ succ n, w.colour m = .black
  acyclic : ∀ n, w.colour n = .black → ¬ TransGen (fun a b => b ∈ succ a) n n
  looked : Looked w.colour succ none w.stack
  linked : (w.stack.map Prod.fst).IsChain (Links succ w.parent)

theorem Looked.mono {colour colour' : α → Colour} {above : Option α} {stack : List (α × ℕ)}
    (h : Looked colour succ above stack) (hblack : ∀ n, colour n = .black → colour' n = .black) :
    Looked colour' succ above stack := by
  induction stack generalizing above with
  | nil => trivial
  | cons e rest ih => exact ⟨fun m hm => (h.1 m hm).imp_left (hblack m), ih h.2⟩

/-- What is left leads to what is left only. -/
theorem Inv.black_of_reach {w : Search α} (h : Inv succ nodes w) {n m : α}
    (hpath : ReflTransGen (fun a b => b ∈ succ a) n m) (hn : w.colour n = .black) :
    w.colour m = .black := by
  induction hpath with
  | refl => exact hn
  | tail _ hedge ih => exact h.closed _ ih _ hedge

/-- Looking at one more successor. -/
theorem Looked.advance {colour : α → Colour} {above : Option α} {node nxt : α} {idx : ℕ}
    {rest : List (α × ℕ)} (h : Looked colour succ none ((node, idx) :: rest))
    (hnxt : (succ node)[idx]? = some nxt) (hseen : colour nxt = .black ∨ above = some nxt) :
    Looked colour succ above ((node, idx + 1) :: rest) := by
  refine ⟨fun m hm => ?_, h.2⟩
  rw [take_add_one, hnxt] at hm
  rcases mem_append.mp hm with hm | hm
  · exact .inl ((h.1 m hm).resolve_right (by simp))
  · rwa [← Option.some.inj (Option.mem_toList.mp hm)]

/-- Looking at a successor that has been left. -/
theorem Inv.advance {w : Search α} (h : Inv succ nodes w) {node nxt : α} {idx : ℕ} {rest : List (α × ℕ)}
    (hstack : w.stack = (node, idx) :: rest) (hnxt : (succ node)[idx]? = some nxt)
    (hblack : w.colour nxt = .black) :
    Inv succ nodes { w with stack := (node, idx + 1) :: rest } := by
  have hlooked := h.looked
  have hgray := h.gray
  have hnodup := h.nodup
  have hlinked := h.linked
  rw [hstack] at hlooked hgray hnodup hlinked
  exact ⟨h.white, hgray, hnodup, h.closed, h.acyclic, hlooked.advance hnxt (.inl hblack), hlinked⟩

/-- Edge by edge back to where it begins. -/
def IsCycle (succ : α → List α) (cycle : List α) : Prop :=
  (∃ n p, cycle = n :: (p ++ [n])) ∧ cycle.IsChain fun a b => b ∈ succ a

theorem IsCycle.exists_transGen {cycle : List α} (h : IsCycle succ cycle) :
    ∃ n, TransGen (fun a b => b ∈ succ a) n n := by
  obtain ⟨⟨n, p, rfl⟩, hchain⟩ := h
  suffices hpath : ∀ a, (a :: (p ++ [n])).IsChain (fun a b => b ∈ succ a) →
    TransGen (fun a b => b ∈ succ a) a n from ⟨n, hpath n hchain⟩
  clear hchain
  induction p with
  | nil => exact fun a h => .single (isChain_cons_cons.mp h).1
  | cons b p ih => exact fun a h => .head (isChain_cons_cons.mp h).1 (ih b (isChain_cons_cons.mp h).2)

end Inv

variable {w : Search α}

/-- Leaving a node: all it leads to has been left, so it is on no cycle. -/
theorem Inv.leave (h : Inv succ nodes w) {node : α} {idx : ℕ} {rest : List (α × ℕ)}
    (hstack : w.stack = (node, idx) :: rest) (hidx : (succ node).length ≤ idx) :
    Inv succ nodes { w with colour := update w.colour node .black, stack := rest } := by
  have hlooked := h.looked
  have hnodup := h.nodup
  have hlinked := h.linked
  rw [hstack] at hlooked hnodup hlinked
  obtain ⟨htop, hrest⟩ := hlooked
  rw [take_of_length_le hidx] at htop
  have hsucc : ∀ m ∈ succ node, w.colour m = .black := fun m hm => (htop m hm).resolve_right (by simp)
  have hgray : w.colour node = .gray := (h.gray node).mpr (by simp [hstack])
  have hmono : ∀ n, w.colour n = .black → update w.colour node .black n = .black := fun n hn => by
    by_cases hnode : n = node
    · rw [hnode, update_self]
    · rwa [update_of_ne hnode]
  have hnew : ∀ n, update w.colour node .black n = .black → n = node ∨ w.colour n = .black :=
      fun n hn => by
    by_cases hnode : n = node
    · exact .inl hnode
    · exact .inr (by rwa [update_of_ne hnode] at hn)
  refine ⟨fun n hn => ?_, fun n => ?_, hnodup.of_cons, fun n hn m hm => ?_, fun n hn hcycle => ?_,
    ?_, hlinked.tail⟩
  · by_cases hnode : n = node
    · rw [hnode] at hn
      simp at hn
    · exact h.white n (by simpa [update_of_ne hnode] using hn)
  · have hn := h.gray n
    rw [hstack] at hn
    by_cases hnode : n = node
    · subst hnode
      simpa using (nodup_cons.mp hnodup).1
    · simpa [update_of_ne hnode, hnode] using hn
  · rcases hnew n hn with rfl | hn
    · exact hmono m (hsucc m hm)
    · exact hmono m (h.closed n hn m hm)
  · rcases hnew n hn with rfl | hn
    · obtain ⟨m, hedge, hback⟩ := TransGen.head'_iff.mp hcycle
      have := h.black_of_reach hback (hsucc m hedge)
      rw [hgray] at this
      cases this
    · exact h.acyclic n hn hcycle
  · cases rest with
    | nil => trivial
    | cons e rest =>
      refine ⟨fun m hm => .inl ?_, hrest.2.mono hmono⟩
      rcases hrest.1 m hm with hm | hm
      · exact hmono m hm
      · rw [← Option.some.inj hm]
        exact update_self ..

/-- Going on to a node that has not been reached. -/
theorem Inv.push (h : Inv succ nodes w) {nxt : α} (hwhite : w.colour nxt = .white) (origin : Option α)
    (hfrom : ∀ a ∈ (w.stack.map Prod.fst).head?, origin = some a ∧ nxt ∈ succ a) {stack : List (α × ℕ)}
    (hfst : stack.map Prod.fst = w.stack.map Prod.fst)
    (hlooked : Looked w.colour succ (some nxt) stack) :
    Inv succ nodes ⟨update w.colour nxt .gray, update w.parent nxt origin, (nxt, 0) :: stack⟩ := by
  have hmono : ∀ n, w.colour n = .black → update w.colour nxt .gray n = .black := fun n hn => by
    have hne : n ≠ nxt := by
      rintro rfl
      rw [hwhite] at hn
      cases hn
    rwa [update_of_ne hne]
  have hold : ∀ n, update w.colour nxt .gray n = .black → w.colour n = .black := fun n hn => by
    by_cases hnode : n = nxt
    · rw [hnode, update_self] at hn
      cases hn
    · rwa [update_of_ne hnode] at hn
  refine ⟨fun n hn => ?_, fun n => ?_, ?_, fun n hn m hm => hmono m (h.closed n (hold n hn) m hm),
    fun n hn => h.acyclic n (hold n hn), ⟨by simp, hlooked.mono hmono⟩, ?_⟩
  · by_cases hnode : n = nxt
    · exact hnode ▸ h.white nxt hwhite
    · exact h.white n (by simpa [update_of_ne hnode] using hn)
  · rw [map_cons, hfst, mem_cons, ← h.gray n]
    by_cases hnode : n = nxt
    · simp [hnode]
    · simp [hnode]
  · rw [map_cons, hfst, nodup_cons, ← h.gray nxt, hwhite]
    exact ⟨by simp, h.nodup⟩
  · rw [map_cons, hfst, isChain_cons]
    refine ⟨fun a ha => ⟨by simpa using (hfrom a ha).1, (hfrom a ha).2⟩, h.linked.imp_of_mem_imp
      fun a b ha _ hab => ?_⟩
    have hne : a ≠ nxt := by
      rintro rfl
      rw [← h.gray, hwhite] at ha
      cases ha
    exact ⟨(update_of_ne hne _ _).trans hab.1, hab.2⟩

/-- Parents lead up the stack, and `fuel` rounds are enough to come to a node on it. -/
theorem isChain_pathUp {parent : α → Option α} {node nxt : α} {rest : List α} {fuel : ℕ}
    (h : (node :: rest).IsChain (Links succ parent)) (hnxt : nxt ∈ rest) (hfuel : rest.length ≤ fuel) :
    ∃ up, pathUp parent nxt fuel (parent node) = some up ∧
      (node :: (up ++ [nxt])).IsChain fun a b => a ∈ succ b := by
  induction rest generalizing node fuel with
  | nil => cases hnxt
  | cons p rest ih =>
    obtain ⟨⟨hparent, hedge⟩, h⟩ := isChain_cons_cons.mp h
    obtain ⟨fuel, rfl⟩ := Nat.exists_eq_add_of_le' (Nat.one_le_of_lt hfuel)
    rw [hparent, pathUp]
    split_ifs with hp
    · exact ⟨[], rfl, by simpa [hp] using hedge⟩
    · have hmem := (mem_cons.mp hnxt).resolve_left (Ne.symm hp)
      obtain ⟨up, hup, hchain⟩ := ih h hmem (Nat.le_of_succ_le_succ hfuel)
      exact ⟨p :: up, by rw [hup, Option.map_some], isChain_cons_cons.mpr ⟨hedge, hchain⟩⟩

/-- A successor that is gray closes a cycle. -/
theorem Inv.isCycle (h : Inv succ nodes w) {node nxt : α} {idx : ℕ} {rest : List (α × ℕ)}
    (hstack : w.stack = (node, idx) :: rest) (hnxt : nxt ∈ succ node) (hgray : w.colour nxt = .gray) :
    ∃ cycle, cycleThrough w node nxt = some cycle ∧ IsCycle succ cycle := by
  have hlinked := h.linked
  have hmem := (h.gray nxt).mp hgray
  rw [hstack] at hlinked hmem
  unfold cycleThrough
  split_ifs with hself
  · exact ⟨_, rfl, ⟨nxt, [], rfl⟩, by simpa [hself] using hnxt⟩
  · obtain ⟨up, hup, hchain⟩ := isChain_pathUp hlinked ((mem_cons.mp hmem).resolve_left hself)
      (show _ ≤ w.stack.length by simp [hstack])
    refine ⟨([nxt, node] ++ up ++ [nxt]).reverse,
      by rw [hup, Option.map_some], ⟨nxt, (node :: up).reverse, by simp⟩, ?_⟩
    exact isChain_reverse.mpr (isChain_cons_cons.mpr ⟨hnxt, hchain⟩)

/-! ### One root -/

theorem update_ne_white {colour : α → Colour} {node n : α} {c : Colour} (hc : c ≠ .white)
    (hn : colour n ≠ .white) : update colour node c n ≠ .white := by
  by_cases hnode : n = node
  · rwa [hnode, update_self]
  · rwa [update_of_ne hnode]

/-- How many turns may still be needed: one for each edge and each node that is left to look at. -/
def left (succ : α → List α) (nodes : List α) (w : Search α) : ℕ :=
  (nodes.map fun n => if w.colour n = .white then (succ n).length + 1 else 0).sum +
    (w.stack.map fun e => (succ e.1).length - e.2 + 1).sum

/-- A node that is entered is no longer to be entered. -/
theorem sum_white_push (succ : α → List α) {colour : α → Colour} {nxt : α}
    (hwhite : colour nxt = .white) (hmem : nxt ∈ nodes) :
    (nodes.map fun n => if update colour nxt .gray n = .white then (succ n).length + 1 else 0).sum +
      ((succ nxt).length + 1) ≤ (nodes.map fun n => if colour n = .white then (succ n).length + 1
        else 0).sum := by
  have hle : ∀ n, (if update colour nxt .gray n = .white then (succ n).length + 1 else 0) ≤
      if colour n = .white then (succ n).length + 1 else 0 := fun n => by
    by_cases hn : n = nxt
    · simp [hn]
    · rw [update_of_ne hn]
  induction nodes with
  | nil => cases hmem
  | cons n nodes ih =>
    simp only [map_cons, sum_cons]
    by_cases hn : n = nxt
    · have hrest := sum_le_sum (l := nodes) fun n _ => hle n
      simp only [hn, update_self, hwhite, reduceCtorEq, if_false, if_true]
      omega
    · have hrest := ih ((mem_cons.mp hmem).resolve_left (Ne.symm hn))
      have := hle n
      omega

/-- **The inner loop ends** after as many turns as there are edges and nodes left. If it has found
no cycle, nothing is on the stack, and no node is white that was not. -/
theorem explore_ends (turns : ℕ) (h : Inv succ nodes w) (hturns : left succ nodes w ≤ turns) :
    (∃ cycle, explore succ turns w = some (.error cycle) ∧ IsCycle succ cycle) ∨
    ∃ w', explore succ turns w = some (.ok w') ∧
      Inv succ nodes w' ∧ w'.stack = [] ∧ ∀ n, w.colour n ≠ .white → w'.colour n ≠ .white := by
  induction turns generalizing w with
  | zero =>
    cases hstack : w.stack with
    | nil => exact .inr ⟨w, by simp [explore, hstack], h, hstack, fun _ hn => hn⟩
    | cons e rest => simp [left, hstack] at hturns
  | succ turns ih =>
    rw [explore]
    split
    · next hempty => exact .inr ⟨w, rfl, h, hempty, fun _ hn => hn⟩
    · next node idx rest hstack =>
      simp only [left, hstack, map_cons, sum_cons] at hturns
      split
      · next hnone =>
        have hgray : w.colour node = .gray := (h.gray node).mpr (by simp [hstack])
        have hsame : ∀ n, update w.colour node .black n = .white ↔ w.colour n = .white := fun n => by
          by_cases hn : n = node
          · simp [hn, hgray]
          · rw [update_of_ne hn]
        have hends := ih (h.leave hstack (getElem?_eq_none_iff.mp hnone))
          (by simp only [left, hsame]; omega)
        simpa only [ne_eq, hsame] using hends
      · next nxt hnxt =>
        have hidx : idx < (succ node).length := (List.getElem?_eq_some_iff.mp hnxt).1
        split
        · next hgray =>
          obtain ⟨cycle, hcycle, hok⟩ := h.isCycle hstack (mem_of_getElem? hnxt) hgray
          exact .inl ⟨cycle, by rw [hcycle, Option.map_some], hok⟩
        · next hwhite =>
          have hlooked := h.looked
          rw [hstack] at hlooked
          have := sum_white_push succ hwhite (h.white nxt hwhite)
          have hedge := mem_of_getElem? hnxt
          rcases ih (h.push hwhite (some node) (by simpa [hstack]) (by simp [hstack])
            (hlooked.advance hnxt (.inr rfl)))
            (by simp only [left, map_cons, sum_cons]; omega) with hcycle | ⟨w', hok, hinv, hempty,
              hreach⟩
          · exact .inl hcycle
          · exact .inr ⟨w', hok, hinv, hempty, fun n hn => hreach n (update_ne_white (by simp) hn)⟩
        · next hblack =>
          exact ih (h.advance hstack hnxt hblack) (by simp only [left, map_cons, sum_cons]; omega)

/-! ### All roots -/

theorem Inv.enter (h : Inv succ nodes w) (hempty : w.stack = []) {root : α}
    (hwhite : w.colour root = .white) : Inv succ nodes (w.enter root) :=
  h.push hwhite none (by simp [hempty]) (by simp [hempty]) trivial

theorem left_enter (h : Inv succ nodes w) {root : α} (hwhite : w.colour root = .white) :
    left succ nodes (w.enter root) ≤ enough succ nodes := by
  refine le_trans (le_of_eq ?_) ((sum_white_push succ hwhite (h.white root hwhite)).trans
    (sum_le_sum fun n _ => ?_))
  · rfl
  · split_ifs
    · exact le_rfl
    · exact Nat.zero_le _

/-- The outer loop ends: with a cycle, or if there is none. -/
theorem searchFrom_ends {roots : List α} (h : Inv succ nodes w) (hempty : w.stack = [])
    (hrest : ∀ n ∈ nodes, n ∈ roots ∨ w.colour n ≠ .white) :
    ∃ res, searchFrom succ (enough succ nodes) roots w = some res ∧ (∀ cycle ∈ res, IsCycle succ cycle) ∧
      (res = none → ∀ n, ¬ TransGen (fun a b => b ∈ succ a) n n) := by
  induction roots generalizing w with
  | nil =>
    refine ⟨none, rfl, by simp, fun _ n => h.acyclic n ?_⟩
    cases hcolour : w.colour n with
    | white => exact absurd hcolour ((hrest n (h.white n hcolour)).resolve_left (by simp))
    | gray => simpa [hempty] using (h.gray n).mp hcolour
    | black => rfl
  | cons root roots ih =>
    rw [searchFrom]
    split_ifs with hroot
    · refine ih h hempty fun n hn => ?_
      rcases hrest n hn with hmem | hn
      · exact (mem_cons.mp hmem).elim (fun heq => .inr (heq ▸ hroot)) .inl
      · exact .inr hn
    · rw [not_not] at hroot
      rcases explore_ends _ (h.enter hempty hroot) (left_enter h hroot) with
        ⟨cycle, hres, hcycle⟩ | ⟨w', hres, hinv, hempty', hreach⟩ <;> rw [hres]
      · exact ⟨some cycle, rfl, by simpa, by simp⟩
      · refine ih hinv hempty' fun n hn => ?_
        rcases hrest n hn with hmem | hn
        · rcases mem_cons.mp hmem with rfl | hmem
          · exact .inr (hreach n (by simp [Search.enter]))
          · exact .inl hmem
        · exact .inr (hreach n (update_ne_white (by simp) hn))

/-- **The search ends**, and finds nothing just if there is no cycle. -/
theorem findCycle_ends (hsucc : ∀ n, n ∉ nodes → succ n = []) :
    searchFrom succ (enough succ nodes) nodes (start nodes) = some (findCycle succ nodes) ∧
      (findCycle succ nodes = none ↔ ∀ n, ¬ TransGen (fun a b => b ∈ succ a) n n) ∧
      ∀ cycle, findCycle succ nodes = some cycle → IsCycle succ cycle := by
  have hleft : ∀ n, (start nodes).colour n = .black → succ n = [] := fun n hn => hsucc n fun hmem => by
    simp [start, hmem] at hn
  have hstart : Inv succ nodes (start nodes) := by
    refine ⟨fun n hn => ?_, fun n => ?_, nodup_nil, fun n hn => ?_, fun n hn hcycle => ?_, trivial, .nil⟩
    · by_contra hmem
      simp [start, hmem] at hn
    · by_cases hmem : n ∈ nodes
      · simp [start, hmem]
      · simp [start, hmem]
    · simp [hleft n hn]
    · obtain ⟨m, hedge, -⟩ := TransGen.head'_iff.mp hcycle
      simp [hleft n hn] at hedge
  obtain ⟨res, hres, hcycle, hnone⟩ := searchFrom_ends hstart rfl fun n hn => .inl hn
  rw [findCycle, hres, Option.getD_some]
  refine ⟨rfl, ⟨hnone, fun hacyclic => ?_⟩, hcycle⟩
  refine Option.eq_none_iff_forall_ne_some.mpr fun cycle heq => ?_
  obtain ⟨n, hn⟩ := (hcycle cycle heq).exists_transGen
  exact hacyclic n hn

end Nonux.Lib.Dfs
