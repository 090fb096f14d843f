import Mathlib.Data.List.FinRange

/-!
# Bounded loops and runs

`forLoop n body s` is the loop `for (i = 0; i < n; i++) s = body(s, i)` over a
state passed along. `forLoop_induction` is its rule: an assertion indexed by the
loop variable, true at the start and carried over one turn, holds at the end with
the variable at `n`.

`runFrom step s as` is a run: the actions `as` taken in order. `RunOk step ok s as`
says that every action of a run meets `ok` in the state it is taken in, and
`RunOk.inv` is the rule for invariants of such runs.
-/

namespace Nonux.Lib

universe u v

variable {σ : Type u} {α : Type v}

/-! ### Loops -/

/-- `for (i = 0; i < n; i++) s = body(s, i)`. -/
def forLoop (n : ℕ) (body : σ → Fin n → σ) (s : σ) : σ := (List.finRange n).foldl body s

/-- The loop rule, over a list of indices: `I` is indexed by how many turns are done. -/
theorem foldl_induction {β : Type v} (body : σ → β → σ) (I : ℕ → σ → Prop) :
    ∀ (l : List β) (k : ℕ) (s : σ), I k s →
      (∀ (j : ℕ) (hj : j < l.length) (s : σ), I (k + j) s → I (k + j + 1) (body s l[j])) →
        I (k + l.length) (l.foldl body s)
  | [], _, _, h, _ => h
  | a :: l, k, s, h, hstep => by
    have hhead : I (k + 1) (body s a) := hstep 0 (Nat.zero_lt_succ _) s h
    have htail := foldl_induction body I l (k + 1) (body s a) hhead fun j hj s' hs' => by
      have := hstep (j + 1) (Nat.succ_lt_succ hj) s' (by rwa [show k + (j + 1) = k + 1 + j by omega])
      rwa [show k + (j + 1) + 1 = k + 1 + j + 1 by omega] at this
    rw [List.length_cons, List.foldl_cons, show k + (l.length + 1) = k + 1 + l.length by omega]
    exact htail

variable {s : σ}

/-- **The loop rule**: what holds before the first turn and is carried over every turn
holds after the last. -/
theorem forLoop_induction {n : ℕ} {body : σ → Fin n → σ} (I : ℕ → σ → Prop) (h0 : I 0 s)
    (hstep : ∀ (i : Fin n) (s : σ), I i s → I (i + 1) (body s i)) : I n (forLoop n body s) := by
  have := foldl_induction body I (List.finRange n) 0 s h0 fun j hj s' hs' => by
    rw [List.length_finRange] at hj
    rw [Nat.zero_add] at hs' ⊢
    simpa using hstep ⟨j, hj⟩ s' hs'
  rwa [List.length_finRange, Nat.zero_add] at this

/-- The loop rule for an assertion that does not mention the loop variable. -/
theorem forLoop_inv {n : ℕ} {body : σ → Fin n → σ} (I : σ → Prop) (h0 : I s)
    (hstep : ∀ (i : Fin n) (s : σ), I s → I (body s i)) : I (forLoop n body s) :=
  forLoop_induction (fun _ => I) h0 hstep

/-- **A loop whose turn `i` rewrites cell `i` alone** rewrites every cell once. -/
theorem forLoop_pointwise {β : Type v} {n : ℕ} {body : σ → Fin n → σ} (get : σ → Fin n → β)
    (f : Fin n → β → β) (hself : ∀ s i, get (body s i) i = f i (get s i))
    (hother : ∀ s i j, j ≠ i → get (body s i) j = get s j) (s : σ) (j : Fin n) :
    get (forLoop n body s) j = f j (get s j) := by
  -- After `k` turns the cells below `k` are rewritten and the others as they were.
  have hdone : ∀ j : Fin n, get (forLoop n body s) j = if (j : ℕ) < n then f j (get s j)
      else get s j := by
    apply forLoop_induction fun k s' => ∀ j : Fin n, get s' j = if (j : ℕ) < k then f j (get s j)
      else get s j
    · intro j; simp
    · intro i s' ih j
      by_cases hji : j = i
      · subst hji
        simp [hself, ih j]
      · have hne : (j : ℕ) ≠ i := fun h => hji (Fin.ext h)
        have hlt : (j : ℕ) < i + 1 ↔ (j : ℕ) < i := by omega
        simp only [hother s' i j hji, ih j, hlt]
  simpa using hdone j

/-! ### Runs -/

/-- The state after the actions `as`, taken in order from `s`. -/
def runFrom (step : σ → α → σ) (s : σ) (as : List α) : σ := as.foldl step s

@[simp] theorem runFrom_nil (step : σ → α → σ) (s : σ) : runFrom step s [] = s := rfl

@[simp] theorem runFrom_cons (step : σ → α → σ) (s : σ) (a : α) (as : List α) :
    runFrom step s (a :: as) = runFrom step (step s a) as := rfl

theorem runFrom_append (step : σ → α → σ) (s : σ) (as bs : List α) :
    runFrom step s (as ++ bs) = runFrom step (runFrom step s as) bs := List.foldl_append

variable {step : σ → α → σ}

/-- An invariant that every action keeps holds in every state a run reaches. -/
theorem runFrom_inv (I : σ → Prop) (hstep : ∀ s a, I s → I (step s a)) (h : I s) (as : List α) :
    I (runFrom step s as) := by
  induction as generalizing s with
  | nil => exact h
  | cons a as ih => exact ih (hstep s a h)

/-- Every action of the run meets `ok` in the state it is taken in. -/
def RunOk (step : σ → α → σ) (ok : σ → α → Prop) : σ → List α → Prop
  | _, [] => True
  | s, a :: as => ok s a ∧ RunOk step ok (step s a) as

instance RunOk.decidable (step : σ → α → σ) (ok : σ → α → Prop) [∀ s a, Decidable (ok s a)] :
    ∀ s as, Decidable (RunOk step ok s as)
  | _, [] => inferInstanceAs (Decidable True)
  | s, a :: as =>
    have := RunOk.decidable step ok (step s a) as
    inferInstanceAs (Decidable (_ ∧ _))

variable {ok : σ → α → Prop}

/-- A run of actions that are permitted everywhere. -/
theorem runOk_of_forall (h : ∀ s a, ok s a) (s : σ) (as : List α) : RunOk step ok s as := by
  induction as generalizing s with
  | nil => trivial
  | cons a as ih => exact ⟨h s a, ih _⟩

variable {as : List α}

theorem runOk_append {bs : List α} :
    RunOk step ok s (as ++ bs) ↔ RunOk step ok s as ∧ RunOk step ok (runFrom step s as) bs := by
  induction as generalizing s with
  | nil => simp [RunOk]
  | cons a as ih => simp [RunOk, ih, and_assoc]

/-- **The invariant rule for runs**: an invariant that every permitted action keeps
holds in the state a permitted run reaches. -/
theorem RunOk.inv (I : σ → Prop) (hstep : ∀ s a, ok s a → I s → I (step s a))
    (hok : RunOk step ok s as) (h : I s) : I (runFrom step s as) := by
  induction as generalizing s with
  | nil => exact h
  | cons a as ih => exact ih hok.2 (hstep s a hok.1 h)

/-- **What each step does**: if, where an invariant holds, what is asked of a step holds just when
the step is permitted, and permitted steps keep the invariant, then it holds of all steps of a run
just when all are permitted. -/
theorem runOk_iff_of_inv {valid sound : σ → α → Prop} (I : σ → Prop)
    (hiff : ∀ s a, valid s a → I s → (sound s a ↔ ok s a))
    (hI : ∀ s a, valid s a → ok s a → I s → I (step s a)) (hvalid : RunOk step valid s as)
    (hi : I s) : RunOk step sound s as ↔ RunOk step ok s as := by
  induction as generalizing s with
  | nil => exact Iff.rfl
  | cons a as ih =>
    have hhead := hiff s a hvalid.1 hi
    exact ⟨fun h => ⟨hhead.mp h.1, (ih hvalid.2 (hI s a hvalid.1 (hhead.mp h.1) hi)).mp h.2⟩,
      fun h => ⟨hhead.mpr h.1, (ih hvalid.2 (hI s a hvalid.1 h.1 hi)).mpr h.2⟩⟩

/-- **An exact condition on steps**: if, where the invariant `J` of permitted actions holds, an
action keeps `I` just when it is permitted, then `I` holds all along a run just when the run is
permitted. -/
theorem runOk_iff_forall_prefix (J I : σ → Prop) (hJ : ∀ s a, J s → ok s a → J (step s a))
    (hI : ∀ s a, J s → I s → (I (step s a) ↔ ok s a)) (hj : J s) (hi : I s) (as : List α) :
    (∀ pre, pre <+: as → I (runFrom step s pre)) ↔ RunOk step ok s as := by
  induction as generalizing s with
  | nil => exact ⟨fun _ => trivial, fun _ pre hpre => by rwa [List.prefix_nil.mp hpre]⟩
  | cons a as ih =>
    constructor
    · intro h
      have hnext : I (step s a) := h [a] (by simp)
      have hok := (hI s a hj hi).mp hnext
      refine ⟨hok, (ih (hJ s a hj hok) hnext).mp fun pre hpre => ?_⟩
      exact h (a :: pre) (List.cons_prefix_cons.mpr ⟨rfl, hpre⟩)
    · intro h pre hpre
      have hnext : I (step s a) := (hI s a hj hi).mpr h.1
      cases pre with
      | nil => exact hi
      | cons b pre =>
        obtain ⟨rfl, htail⟩ := List.cons_prefix_cons.mp hpre
        exact (ih (hJ s b hj h.1) hnext).mpr h.2 pre htail

/-! ### Runs with outputs -/

section Outputs

variable {τ : Type*} {ο : Type*}

/-- What a machine puts out along a run, and the state that it ends in. -/
def runOutputs (step : σ → α → σ × ο) : σ → List α → σ × List ο
  | s, [] => (s, [])
  | s, a :: as => ((runOutputs step (step s a).1 as).1,
        (step s a).2 :: (runOutputs step (step s a).1 as).2)

/-- **Simulation**: two machines whose steps keep a relation and put out the same run alike. -/
theorem runOutputs_sim {step : σ → α → σ × ο} {step' : τ → α → τ × ο} {R : σ → τ → Prop}
    (hstep : ∀ s t a, R s t → R (step s a).1 (step' t a).1 ∧ (step s a).2 = (step' t a).2) {s : σ}
    {t : τ} (h : R s t) (as : List α) :
    R (runOutputs step s as).1 (runOutputs step' t as).1 ∧
      (runOutputs step s as).2 = (runOutputs step' t as).2 := by
  induction as generalizing s t with
  | nil => exact ⟨h, rfl⟩
  | cons a as ih =>
    obtain ⟨hnext, hout⟩ := hstep s t a h
    obtain ⟨hrun, houts⟩ := ih hnext
    exact ⟨hrun, congrArg₂ _ hout houts⟩

end Outputs

end Nonux.Lib
