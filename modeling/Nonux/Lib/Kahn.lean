import Mathlib.Tactic
import Nonux.Lib.Loop

/-!
# Topological sorting by in-degrees

Kahn's algorithm on the nodes `Fin n` and a list of edges, which may have loops and may have an
edge several times. Every node has a count of the edges that lead to it from nodes not yet
listed. Sweeps over the nodes list those whose count is zero and take their edges off the counts;
a sweep that lists nothing ends the search.

* `sort_some`: a list that comes out has every node once, and the start of every edge before
  its end.
* `sort_isSome_iff`: a list comes out exactly when no node leads to itself.
-/

namespace Nonux.Lib.Kahn

open Relation List

variable {n : ℕ}

/-! ### The algorithm -/

/-- The work in hand. -/
structure Work (n : ℕ) where
  /-- How many edges lead to a node from nodes that are not listed. -/
  deg : Fin n → ℤ
  done : Fin n → Bool := fun _ => false
  order : List (Fin n) := []
  /-- Whether this sweep has listed a node. -/
  progress : Bool := false

/-- Take an edge that starts at `i` off the counts. -/
def cross (i : Fin n) (deg : Fin n → ℤ) (e : Fin n × Fin n) : Fin n → ℤ :=
  if e.1 = i then Function.update deg e.2 (deg e.2 - 1) else deg

/-- One node of a sweep. -/
def visit (edges : List (Fin n × Fin n)) (w : Work n) (i : Fin n) : Work n :=
  if w.done i = true ∨ w.deg i ≠ 0 then w
  else
    { deg := edges.foldl (cross i) w.deg
      done := Function.update w.done i true
      order := w.order ++ [i]
      progress := true }

/-- One sweep over the nodes. -/
def sweep (edges : List (Fin n × Fin n)) (w : Work n) : Work n :=
  forLoop n (visit edges) { w with progress := false }

/-- Sweeps until all nodes are listed, or one makes no progress. -/
def sweeps (edges : List (Fin n × Fin n)) : ℕ → Work n → Option (List (Fin n))
  | 0, w => if w.order.length < n then none else some w.order
  | fuel + 1, w =>
    if w.order.length < n then
      if (sweep edges w).progress = false then none else sweeps edges fuel (sweep edges w)
    else some w.order

/-- The counts at the start. -/
def start (edges : List (Fin n × Fin n)) : Work n := { deg := fun j => edges.countP fun e => e.2 = j }

/-- The nodes in order, if there is one. Each sweep lists a node, so `n` sweeps are enough. -/
def sort (edges : List (Fin n × Fin n)) : Option (List (Fin n)) := sweeps edges n (start edges)

/-! ### What the work keeps -/

/-- The starts of edges come before their ends. -/
def Topological (edges : List (Fin n × Fin n)) (order : List (Fin n)) : Prop :=
  ∀ e ∈ edges, ∀ pre post, order = pre ++ e.2 :: post → e.1 ∈ pre

/-- The work is consistent: the counts are right, and what is listed is in order. -/
structure Right (edges : List (Fin n × Fin n)) (w : Work n) : Prop where
  done : ∀ i, w.done i = true ↔ i ∈ w.order
  nodup : w.order.Nodup
  deg : ∀ j, w.deg j = edges.countP fun e => e.2 = j ∧ e.1 ∉ w.order
  before : Topological edges w.order

theorem foldl_cross (i : Fin n) (edges : List (Fin n × Fin n)) (deg : Fin n → ℤ) (j : Fin n) :
    edges.foldl (cross i) deg j = deg j - edges.countP fun e => e.2 = j ∧ e.1 = i := by
  induction edges generalizing deg with
  | nil => simp
  | cons e edges ih =>
    rw [foldl_cons, ih, countP_cons, cross]
    by_cases hi : e.1 = i
    · by_cases hj : e.2 = j
      · subst hj
        simp [hi]
        ring
      · have hne : j ≠ e.2 := fun heq => hj heq.symm
        simp [hi, hj, hne]
    · simp [hi]

variable {order : List (Fin n)}

/-- Of the edges that lead to `j`, listing `i` takes away those that start at `i`. -/
theorem countP_snoc {i : Fin n} (hi : i ∉ order) (edges : List (Fin n × Fin n)) (j : Fin n) :
    ((edges.countP fun e => e.2 = j ∧ e.1 ∉ order ++ [i] : ℕ) : ℤ) =
      (edges.countP fun e => e.2 = j ∧ e.1 ∉ order) - edges.countP fun e => e.2 = j ∧ e.1 = i := by
  induction edges with
  | nil => simp
  | cons e edges ih =>
    simp only [countP_cons, Nat.cast_add, ih]
    by_cases hj : e.2 = j
    · by_cases he : e.1 = i
      · subst he
        simp [hj, hi]
      · simp [hj, he]
        ring
    · simp [hj]

variable {edges : List (Fin n × Fin n)}

theorem Topological.snoc {i : Fin n} (h : Topological edges order) (hi : i ∉ order)
    (hpred : ∀ e ∈ edges, e.2 = i → e.1 ∈ order) : Topological edges (order ++ [i]) := by
  intro e he pre post heq
  rcases eq_nil_or_concat post with rfl | ⟨post', x, rfl⟩
  · obtain ⟨rfl, hlast⟩ := append_inj' heq rfl
    exact hpred e he (by simpa using hlast.symm)
  · have heq' : order ++ [i] = (pre ++ e.2 :: post') ++ [x] := by simpa using heq
    obtain ⟨rfl, -⟩ := append_inj' heq' rfl
    exact h e he pre post' rfl

variable {w : Work n}

theorem Right.visit (h : Right edges w) (i : Fin n) : Right edges (visit edges w i) := by
  unfold Kahn.visit
  split_ifs with hskip
  · exact h
  · rw [not_or, not_not] at hskip
    have hi : i ∉ w.order := fun hmem => hskip.1 ((h.done i).mpr hmem)
    constructor
    · intro k
      by_cases hk : k = i
      · simp [hk]
      · simp [h.done k, hk]
    · simpa [nodup_append] using ⟨h.nodup, fun a ha heq => hi (heq ▸ ha)⟩
    · intro j
      dsimp only
      rw [foldl_cross, h.deg, countP_snoc hi]
    · refine h.before.snoc hi fun e he hei => ?_
      by_contra hno
      have hzero := h.deg i
      rw [hskip.2, eq_comm, Nat.cast_eq_zero, countP_eq_zero] at hzero
      exact hzero e he (by simp [hei, hno])

theorem Right.sweep (h : Right edges w) : Right edges (sweep edges w) :=
  forLoop_inv (Right edges) { h with } fun i _ hw => hw.visit i

theorem right_start (edges : List (Fin n × Fin n)) : Right edges (start edges) where
  done := by simp [start]
  nodup := nodup_nil
  deg := by simp [start]
  before := by intro e _ pre post heq; simp [start] at heq

/-! ### Progress -/

/-- A sweep without progress found every node listed or with a count. -/
theorem stuck_of_sweep (h : (sweep edges w).progress = false) (i : Fin n) :
    w.done i = true ∨ w.deg i ≠ 0 := by
  have hall : (sweep edges w).progress = false → sweep edges w = { w with progress := false } ∧
      ∀ i : Fin n, (i : ℕ) < n → w.done i = true ∨ w.deg i ≠ 0 := by
    refine forLoop_induction (fun k w' => w'.progress = false → w' = { w with progress := false } ∧
      ∀ i : Fin n, (i : ℕ) < k → w.done i = true ∨ w.deg i ≠ 0) (fun _ => ⟨rfl, fun i hi => by omega⟩) ?_
    intro i w' ih hw'
    unfold visit at hw' ⊢
    split_ifs at hw' ⊢ with hskip
    obtain ⟨rfl, hbelow⟩ := ih hw'
    refine ⟨rfl, fun j hj => ?_⟩
    by_cases hji : j = i
    · exact hji ▸ hskip
    · exact hbelow j (by have : (j : ℕ) ≠ i := fun heq => hji (Fin.ext heq); omega)
  exact (hall h).2 i i.isLt

/-- A sweep with progress lists more. -/
theorem sweep_length (h : (sweep edges w).progress ≠ false) :
    w.order.length < (sweep edges w).order.length := by
  have hall : w.order.length + (sweep edges w).progress.toNat ≤ (sweep edges w).order.length := by
    refine forLoop_inv (fun w' : Work n => w.order.length + w'.progress.toNat ≤ w'.order.length)
      (by simp) ?_
    intro i w' ih
    unfold visit
    split_ifs
    · exact ih
    · simp only [length_append, length_singleton, Bool.toNat_true]
      omega
  have htrue : (sweep edges w).progress = true := by simpa using h
  rw [htrue] at hall
  simpa using hall

/-- A list without repetition has all nodes when it is long enough. -/
theorem forall_mem_iff (h : order.Nodup) : (∀ i, i ∈ order) ↔ n ≤ order.length := by
  have hcard := toFinset_card_of_nodup h
  have hle := h.length_le_card
  rw [Fintype.card_fin] at hle
  have huniv := Finset.card_eq_iff_eq_univ order.toFinset
  rw [hcard, Fintype.card_fin, Finset.eq_univ_iff_forall] at huniv
  simp only [mem_toFinset] at huniv
  rw [← huniv]
  omega

/-- Where nothing can be listed though something is left, there is a cycle. -/
theorem cycle_of_stuck (h : Right edges w) (hlen : w.order.length < n)
    (hstuck : ∀ i, w.done i = true ∨ w.deg i ≠ 0) :
    ∃ i, TransGen (fun i j => (i, j) ∈ edges) i i := by
  by_contra hno
  rw [not_exists] at hno
  have hirrefl : Std.Irrefl (TransGen fun i j => (i, j) ∈ edges) := ⟨hno⟩
  have hwf := Finite.wellFounded_of_trans_of_irrefl (TransGen fun i j : Fin n => (i, j) ∈ edges)
  have hleft : { i | i ∉ w.order }.Nonempty := by
    by_contra hempty
    have hall : ∀ i, i ∈ w.order := by simpa [Set.nonempty_def] using hempty
    exact absurd ((forall_mem_iff h.nodup).mp hall) (not_le.mpr hlen)
  -- A node that is left, with none left before it.
  obtain ⟨i, hi, hmin⟩ := hwf.has_min _ hleft
  have hdeg : w.deg i ≠ 0 := (hstuck i).resolve_left fun hdone => hi ((h.done i).mp hdone)
  rw [h.deg, Nat.cast_ne_zero, ← Nat.pos_iff_ne_zero, countP_pos_iff] at hdeg
  obtain ⟨e, he, hedge⟩ := hdeg
  obtain ⟨rfl, hleft⟩ : e.2 = i ∧ e.1 ∉ w.order := by simpa using hedge
  exact hmin e.1 hleft (.single he)

/-! ### What comes out -/

variable {fuel : ℕ}

theorem sweeps_some (h : Right edges w) (hsome : sweeps edges fuel w = some order) :
    order.Nodup ∧ n ≤ order.length ∧ Topological edges order := by
  induction fuel generalizing w with
  | zero =>
    rw [sweeps] at hsome
    split_ifs at hsome with hlen
    cases hsome
    exact ⟨h.nodup, not_lt.mp hlen, h.before⟩
  | succ fuel ih =>
    rw [sweeps] at hsome
    split_ifs at hsome with hlen hstuck
    · exact ih h.sweep hsome
    · cases hsome
      exact ⟨h.nodup, not_lt.mp hlen, h.before⟩

theorem cycle_of_sweeps_none (h : Right edges w) (hfuel : n ≤ w.order.length + fuel)
    (hnone : sweeps edges fuel w = none) : ∃ i, TransGen (fun i j => (i, j) ∈ edges) i i := by
  induction fuel generalizing w with
  | zero =>
    rw [sweeps, if_neg (by omega)] at hnone
    cases hnone
  | succ fuel ih =>
    rw [sweeps] at hnone
    split_ifs at hnone with hlen hstuck
    · exact cycle_of_stuck h hlen (stuck_of_sweep hstuck)
    · have := sweep_length hstuck
      exact ih h.sweep (by omega) hnone

/-- In a list that has the starts of edges before their ends, no node leads to itself. -/
theorem Topological.acyclic (h : Topological edges order) (hnodup : order.Nodup)
    (hall : ∀ i, i ∈ order) (i : Fin n) : ¬ TransGen (fun i j => (i, j) ∈ edges) i i := by
  have hstep : ∀ i j, (i, j) ∈ edges → order.idxOf i < order.idxOf j := by
    intro i j he
    obtain ⟨pre, post, heq⟩ := append_of_mem (hall j)
    have hpre : i ∈ pre := h (i, j) he pre post heq
    have hj : j ∉ pre := fun hmem => (nodup_append.mp (heq ▸ hnodup)).2.2 j hmem j (by simp) rfl
    rw [heq, idxOf_append_of_mem hpre, idxOf_append_of_notMem hj]
    exact (idxOf_lt_length_of_mem hpre).trans_le (Nat.le_add_right _ _)
  have hlt : ∀ i j, TransGen (fun i j => (i, j) ∈ edges) i j → order.idxOf i < order.idxOf j := by
    intro i j hpath
    induction hpath with
    | single he => exact hstep _ _ he
    | tail _ he ih => exact ih.trans (hstep _ _ he)
  exact fun hcycle => lt_irrefl _ (hlt i i hcycle)

/-- **What comes out is a topological order of all nodes.** -/
theorem sort_some (h : sort edges = some order) :
    order.Nodup ∧ (∀ i, i ∈ order) ∧ Topological edges order := by
  obtain ⟨hnodup, hlen, hbefore⟩ := sweeps_some (right_start edges) h
  exact ⟨hnodup, (forall_mem_iff hnodup).mpr hlen, hbefore⟩

/-- With enough sweeps an order comes out exactly when there is no cycle. -/
theorem sweeps_isSome_iff (edges : List (Fin n × Fin n)) (hfuel : n ≤ fuel) :
    (sweeps edges fuel (start edges)).isSome ↔ ∀ i, ¬ TransGen (fun i j => (i, j) ∈ edges) i i := by
  constructor
  · intro h
    obtain ⟨order, horder⟩ := Option.isSome_iff_exists.mp h
    obtain ⟨hnodup, hlen, hbefore⟩ := sweeps_some (right_start edges) horder
    exact hbefore.acyclic hnodup ((forall_mem_iff hnodup).mpr hlen)
  · intro h
    by_contra hnone
    obtain ⟨i, hi⟩ := cycle_of_sweeps_none (right_start edges) (by simpa [start] using hfuel)
      (Option.not_isSome_iff_eq_none.mp hnone)
    exact h i hi

/-- **An order comes out exactly when there is no cycle.** -/
theorem sort_isSome_iff (edges : List (Fin n × Fin n)) :
    (sort edges).isSome ↔ ∀ i, ¬ TransGen (fun i j => (i, j) ∈ edges) i i :=
  sweeps_isSome_iff edges le_rfl

end Nonux.Lib.Kahn
