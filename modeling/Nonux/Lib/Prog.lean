import Mathlib.Tactic

/-!
# Programs over operations

A `Prog Op Res α` is a program that performs operations `o : Op` one after the other,
gets an answer in `Res o` from each, and returns an `α`. The operations are left
uninterpreted: `trace` runs a program against answers and lists what it performed,
`result` is what such a run returns, and `interp` replaces each operation by a program over
other operations.

`All P p` says that every operation `p` may come to perform satisfies `P`, whatever the
answers. It is checked along the program (`all_bind`), it carries over an interpretation
of the operations (`all_interp`), and it holds of every run (`All.trace`).
-/

namespace Nonux.Lib

open List

/-- A program over the operations `Op`, with answers in `Res`. -/
inductive Prog (Op : Type) (Res : Op → Type) (α : Type) where
  | pure (a : α)
  /-- Perform `o` and go on with its answer. -/
  | op (o : Op) (k : Res o → Prog Op Res α)

namespace Prog

variable {Op Op' : Type} {Res : Op → Type} {Res' : Op' → Type} {α β : Type}

/-- One program after the other. -/
def bind (f : α → Prog Op Res β) : Prog Op Res α → Prog Op Res β
  | pure a => f a
  | op o k => op o fun r => bind f (k r)

instance : Monad (Prog Op Res) where
  pure := Prog.pure
  bind p f := Prog.bind f p

/-- Perform one operation. -/
def perform (o : Op) : Prog Op Res (Res o) := op o pure

/-- Replace every operation by a program. -/
def interp (h : (o : Op) → Prog Op' Res' (Res o)) : Prog Op Res α → Prog Op' Res' α
  | pure a => pure a
  | op o k => h o >>= fun r => interp h (k r)

/-- The operations of a run from time `t` on. The answer to an operation may depend on when
it is performed. -/
def trace (env : ℕ → (o : Op) → Res o) : ℕ → Prog Op Res α → List Op
  | _, pure _ => []
  | t, op o k => o :: trace env (t + 1) (k (env t o))

/-- What a run returns. -/
def result (env : ℕ → (o : Op) → Res o) : ℕ → Prog Op Res α → α
  | _, pure a => a
  | t, op o k => result env (t + 1) (k (env t o))

/-- A run of one program after the other: the first runs, and then the second with what the
first returned. -/
theorem trace_bind (env : ℕ → (o : Op) → Res o) (t : ℕ) (p : Prog Op Res α) (f : α → Prog Op Res β) :
    (p >>= f).trace env t =
      p.trace env t ++ (f (p.result env t)).trace env (t + (p.trace env t).length) := by
  induction p generalizing t with
  | pure a => rfl
  | op o k ih =>
    have htail := ih (env t o) (t + 1)
    rw [Nat.add_assoc, Nat.add_comm 1] at htail
    exact congrArg (o :: ·) htail

theorem result_bind (env : ℕ → (o : Op) → Res o) (t : ℕ) (p : Prog Op Res α) (f : α → Prog Op Res β) :
    (p >>= f).result env t = (f (p.result env t)).result env (t + (p.trace env t).length) := by
  induction p generalizing t with
  | pure a => rfl
  | op o k ih =>
    have htail := ih (env t o) (t + 1)
    rw [Nat.add_assoc, Nat.add_comm 1] at htail
    exact htail

theorem bind_assoc {γ : Type} (p : Prog Op Res α) (f : α → Prog Op Res β) (g : β → Prog Op Res γ) :
    p >>= f >>= g = p >>= fun a => f a >>= g := by
  induction p with
  | pure a => rfl
  | op o k ih => exact congrArg (op o) (funext ih)

/-- An interpretation goes through one program after the other. -/
theorem interp_bind (h : (o : Op) → Prog Op' Res' (Res o)) (p : Prog Op Res α) (f : α → Prog Op Res β) :
    interp h (p >>= f) = interp h p >>= fun a => interp h (f a) := by
  induction p with
  | pure a => rfl
  | op o k ih =>
    have htail : (fun r => interp h (k r >>= f)) = fun r => interp h (k r) >>= fun a => interp h
      (f a) := funext ih
    exact (congrArg (h o >>= ·) htail).trans (bind_assoc _ _ _).symm

theorem interp_perform (h : (o : Op) → Prog Op' Res' (Res o)) (o : Op) : interp h (perform o) = h o := by
  change (h o >>= fun r => Pure.pure r) = h o
  induction h o with
  | pure a => rfl
  | op o k ih => exact congrArg (op o) (funext ih)

/-! ### Running on a state -/

variable {σ : Type}

/-- Run a program on a state that each operation changes. -/
def run (step : σ → (o : Op) → σ × Res o) : Prog Op Res α → σ → σ × α
  | pure a, s => (s, a)
  | op o k, s => run step (k (step s o).2) (step s o).1

@[simp] theorem run_pure (step : σ → (o : Op) → σ × Res o) (a : α) (s : σ) :
    run step (Pure.pure a : Prog Op Res α) s = (s, a) := rfl

@[simp] theorem run_perform (step : σ → (o : Op) → σ × Res o) (o : Op) (s : σ) :
    run step (perform o) s = step s o := rfl

@[simp] theorem run_bind (step : σ → (o : Op) → σ × Res o) (p : Prog Op Res α)
    (f : α → Prog Op Res β) (s : σ) :
    run step (p >>= f) s = run step (f (run step p s).2) (run step p s).1 := by
  induction p generalizing s with
  | pure a => rfl
  | op o k ih => exact ih _ _

/-- What follows an operation goes on with its answer. -/
theorem run_perform_bind (step : σ → (o : Op) → σ × Res o) (o : Op) (f : Res o → Prog Op Res β) (s : σ) :
    run step (perform o >>= f) s = run step (f (step s o).2) (step s o).1 := rfl

@[simp] theorem run_ite (step : σ → (o : Op) → σ × Res o) (c : Prop) [Decidable c]
    (p q : Prog Op Res α) (s : σ) :
    run step (if c then p else q) s = if c then run step p s else run step q s := by
  split_ifs <;> rfl

/-- Do the same with every element of a list. -/
def forEach {ι : Type} (body : ι → Prog Op Res Unit) : List ι → Prog Op Res Unit
  | [] => Pure.pure ()
  | i :: l => body i >>= fun _ => forEach body l

variable {ι : Type}

theorem run_forEach_singleton (step : σ → (o : Op) → σ × Res o) (body : ι → Prog Op Res Unit)
    (i : ι) (s : σ) : run step (forEach body [i]) s = run step (body i) s := by
  rw [forEach, run_bind]
  rfl

variable {step : σ → (o : Op) → σ × Res o}

/-- The loop rule: what the body keeps, the loop keeps. -/
theorem run_forEach_inv {body : ι → Prog Op Res Unit} {l : List ι} (I : σ → Prop)
    (hbody : ∀ i ∈ l, ∀ s, I s → I (run step (body i) s).1) {s : σ} (h : I s) :
    I (run step (forEach body l) s).1 := by
  induction l generalizing s with
  | nil => exact h
  | cons i l ih =>
    rw [forEach, run_bind]
    exact ih (fun j hj => hbody j (mem_cons_of_mem _ hj)) (hbody i mem_cons_self s h)

/-- The loop around one of its elements. -/
theorem run_forEach_split (body : ι → Prog Op Res Unit) (pre : List ι) (i : ι) (post : List ι) (s : σ) :
    run step (forEach body (pre ++ i :: post)) s =
      run step (forEach body post) (run step (body i) (run step (forEach body pre) s).1).1 := by
  induction pre generalizing s with
  | nil => exact run_bind ..
  | cons j pre ih => rw [cons_append, forEach, forEach, run_bind, run_bind, ih]

/-! ### What a program may perform -/

/-- Every operation the program may perform satisfies `P`. -/
def All (P : Op → Prop) : Prog Op Res α → Prop
  | pure _ => True
  | op o k => P o ∧ ∀ r, All P (k r)

variable {P : Op → Prop}

variable {p : Prog Op Res α}

theorem All.mono {Q : Op → Prop} (h : All P p) (hPQ : ∀ o, P o → Q o) : All Q p := by
  induction p with
  | pure a => trivial
  | op o k ih => exact ⟨hPQ o h.1, fun r => ih r (h.2 r)⟩

theorem all_pure (a : α) : All P (Pure.pure a : Prog Op Res α) := trivial

theorem all_perform {o : Op} (h : P o) : All P (perform o : Prog Op Res (Res o)) := ⟨h, fun _ => trivial⟩

/-- One program after the other. -/
theorem all_bind {f : α → Prog Op Res β} (hp : All P p) (hf : ∀ a, All P (f a)) : All P (p >>= f) := by
  induction p with
  | pure a => exact hf a
  | op o k ih => exact ⟨hp.1, fun r => ih r (hp.2 r)⟩

theorem all_op {o : Op} {k : Res o → Prog Op Res α} (h : P o) (hk : ∀ r, All P (k r)) :
    All P (perform o >>= k) :=
  ⟨h, hk⟩

theorem all_ite {c : Prop} [Decidable c] {q : Prog Op Res α} (hp : All P p) (hq : All P q) :
    All P (if c then p else q) := by
  split_ifs
  · exact hp
  · exact hq

theorem all_forEach {body : ι → Prog Op Res Unit} (h : ∀ i, All P (body i)) (l : List ι) :
    All P (forEach body l) := by
  induction l with
  | nil => exact all_pure ()
  | cons i l ih => exact all_bind (h i) fun _ => ih

/-- The invariant rule: what every operation a program may perform keeps, a run of it keeps. -/
theorem All.run_inv (h : All P p) (I : σ → Prop) (hstep : ∀ o, P o → ∀ s, I s → I (step s o).1)
    {s : σ} (hs : I s) : I (run step p s).1 := by
  induction p generalizing s with
  | pure a => exact hs
  | op o k ih => exact ih _ (h.2 _) (hstep o h.1 s hs)

theorem all_true (p : Prog Op Res α) : All (fun _ => True) p := by
  induction p with
  | pure a => trivial
  | op o k ih => exact ⟨trivial, ih⟩

/-- What replaces the operations that a program may perform is as it should be. -/
theorem All.interp {P' : Op' → Prop} {h : (o : Op) → Prog Op' Res' (Res o)} (hp : All P p)
    (hall : ∀ o, P o → All P' (h o)) : All P' (interp h p) := by
  induction p with
  | pure a => trivial
  | op o k ih => exact all_bind (hall o hp.1) fun r => ih r (hp.2 r)

/-- **Interpreted operations**: if what replaces each operation is as it should be, so is
every program. -/
theorem all_interp {P : Op' → Prop} {h : (o : Op) → Prog Op' Res' (Res o)} (hall : ∀ o, All P (h o))
    (p : Prog Op Res α) : All P (interp h p) := (all_true p).interp fun o _ => hall o

/-! The same of programs that may fail. -/

section ExceptT

variable {ε : Type} {p : ExceptT ε (Prog Op Res) α} {f : α → ExceptT ε (Prog Op Res) β}

theorem allOk_bind (hp : All P p.run) (hf : ∀ a, All P (f a).run) : All P (p >>= f).run := by
  refine all_bind hp fun r => ?_
  cases r with
  | ok a => exact hf a
  | error e => trivial

theorem allOk_lift {q : Prog Op Res α} (hq : All P q) :
    All P (liftM q : ExceptT ε (Prog Op Res) α).run :=
  all_bind hq fun _ => trivial

theorem allOk_ite {c : Prop} [Decidable c] {q : ExceptT ε (Prog Op Res) α} (hp : All P p.run)
    (hq : All P q.run) : All P (if c then p else q).run := by
  split_ifs
  · exact hp
  · exact hq

theorem allOk_foldlM {ι : Type} {body : β → ι → ExceptT ε (Prog Op Res) β}
    (h : ∀ b i, All P (body b i).run) (l : List ι) (b : β) : All P (l.foldlM body b).run := by
  induction l generalizing b with
  | nil => trivial
  | cons i l ih =>
    rw [foldlM_cons]
    exact allOk_bind (h b i) ih

end ExceptT

/-- **What a program may perform bounds what a run performs.** -/
theorem All.trace (h : All P p) (env : ℕ → (o : Op) → Res o) (t : ℕ) : ∀ o ∈ p.trace env t, P o := by
  induction p generalizing t with
  | pure a => simp [Prog.trace]
  | op o k ih =>
    intro o' ho'
    rcases mem_cons.mp ho' with rfl | htail
    · exact h.1
    · exact ih _ (h.2 _) (t + 1) o' htail

/-! ### Watching a run -/

section Watch

variable {τ : Type} {step : σ → (o : Op) → σ × Res o} {act : τ → Op → τ}

/-- The operations change a second state, which they do not get answers from. -/
def watch (step : σ → (o : Op) → σ × Res o) (act : τ → Op → τ) (x : σ × τ) (o : Op) : (σ × τ) × Res o :=
  (((step x.1 o).1, act x.2 o), (step x.1 o).2)

/-- The run is the one that is not watched. -/
theorem run_watch (p : Prog Op Res α) (x : σ × τ) :
    (run (watch step act) p x).1.1 = (run step p x.1).1 ∧
    (run (watch step act) p x).2 = (run step p x.1).2 := by
  induction p generalizing x with
  | pure a => exact ⟨rfl, rfl⟩
  | op o k ih => exact ih _ _

/-- What no operation of a program changes is the same at its end. -/
theorem All.run_watch {p : Prog Op Res α} (h : All P p) (hact : ∀ o, P o → ∀ t, act t o = t) (s : σ)
    (t : τ) : run (watch step act) p (s, t) = (((run step p s).1, t), (run step p s).2) := by
  induction p generalizing s with
  | pure a => rfl
  | op o k ih =>
    change run (watch step act) (k (step s o).2) ((step s o).1, act t o) = _
    rw [hact o h.1]
    exact ih _ (h.2 _) _

theorem All.run_watch_snd {p : Prog Op Res α} (h : All P p) (hact : ∀ o, P o → ∀ t, act t o = t)
    (x : σ × τ) : (run (watch step act) p x).1.2 = x.2 := by
  obtain ⟨s, t⟩ := x
  rw [h.run_watch hact]

end Watch

/-! ### How a run ends -/

/-- The operations of a run on a state. -/
def performed (step : σ → (o : Op) → σ × Res o) : Prog Op Res α → σ → List Op
  | pure _, _ => []
  | op o k, s => o :: performed step (k (step s o).2) (step s o).1

/-- A run from `s`, after the operations `l`, ends with `Q` of what it returns, the state, and all
the operations. -/
def Ends (step : σ → (o : Op) → σ × Res o) (p : Prog Op Res α) (s : σ) (l : List Op)
    (Q : α → σ → List Op → Prop) : Prop :=
  Q (run step p s).2 (run step p s).1 (l ++ performed step p s)

section Ends

variable {step : σ → (o : Op) → σ × Res o} {s : σ} {l : List Op}

variable {Q : α → σ → List Op → Prop}

theorem ends_pure (a : α) : Ends step (Pure.pure a : Prog Op Res α) s l Q ↔ Q a s l := by
  change Q a s (l ++ []) ↔ _
  rw [append_nil]

theorem ends_op {o : Op} {k : Res o → Prog Op Res α} :
    Ends step (op o k) s l Q ↔ Ends step (k (step s o).2) (step s o).1 (l ++ [o]) Q := by
  unfold Ends
  rw [append_assoc, singleton_append]
  rfl

theorem ends_perform {o : Op} {Q : Res o → σ → List Op → Prop} :
    Ends step (perform o) s l Q ↔ Q (step s o).2 (step s o).1 (l ++ [o]) := ends_op.trans (ends_pure _)

variable {p : Prog Op Res α}

theorem ends_bind {f : α → Prog Op Res β} {Q : β → σ → List Op → Prop} :
    Ends step (p >>= f) s l Q ↔ Ends step p s l fun a s l => Ends step (f a) s l Q := by
  induction p generalizing s l with
  | pure a => exact (ends_pure (Q := fun a s l => Ends step (f a) s l Q) a).symm
  | op o k ih => exact ends_op.trans ((ih _).trans ends_op.symm)

theorem Ends.mono {Q' : α → σ → List Op → Prop} (h : Ends step p s l Q)
    (himp : ∀ a s l, Q a s l → Q' a s l) : Ends step p s l Q' := himp _ _ _ h

/-- A program that performs what keeps `I` ends with `I`. -/
theorem All.ends (h : All P p) (I : σ → List Op → Prop)
    (hstep : ∀ o, P o → ∀ s l, I s l → I (step s o).1 (l ++ [o])) (hs : I s l) :
    Ends step p s l fun _ s l => I s l := by
  induction p generalizing s l with
  | pure a => exact (ends_pure a).mpr hs
  | op o k ih => exact ends_op.mpr (ih _ (h.2 _) (hstep o h.1 s l hs))

end Ends

/-- The same of a program that may fail: it ends with `Q` if it succeeds and with `E` if it
fails. -/
def EndsOk {ε : Type} (step : σ → (o : Op) → σ × Res o) (p : ExceptT ε (Prog Op Res) α) (s : σ)
    (l : List Op) (Q : α → σ → List Op → Prop) (E : ε → σ → List Op → Prop) : Prop :=
  Ends step p.run s l fun
    | .ok a => Q a
    | .error e => E e

section EndsOk

variable {ε : Type} {step : σ → (o : Op) → σ × Res o} {s : σ} {l : List Op} {E : ε → σ → List Op → Prop}

variable {Q : α → σ → List Op → Prop}

theorem endsOk_pure (a : α) : EndsOk step (Pure.pure a : ExceptT ε (Prog Op Res) α) s l Q E ↔
    Q a s l := ends_pure _

theorem endsOk_throw (e : ε) : EndsOk step (throw e : ExceptT ε (Prog Op Res) α) s l Q E ↔
    E e s l := ends_pure _

variable {p : ExceptT ε (Prog Op Res) α}

theorem endsOk_bind {f : α → ExceptT ε (Prog Op Res) β} {Q : β → σ → List Op → Prop} :
    EndsOk step (p >>= f) s l Q E ↔ EndsOk step p s l (fun a s l => EndsOk step (f a) s l Q E) E := by
  refine ends_bind.trans (iff_of_eq (congrArg (Ends step p.run s l) (funext fun r => ?_)))
  cases r with
  | ok a => rfl
  | error e => exact funext fun s => funext fun l => propext (ends_pure _)

theorem endsOk_lift {p : Prog Op Res α} :
    EndsOk step (liftM p : ExceptT ε (Prog Op Res) α) s l Q E ↔ Ends step p s l Q := by
  refine ends_bind.trans (iff_of_eq (congrArg (Ends step p s l) (funext fun r => ?_)))
  exact funext fun s => funext fun l => propext (ends_pure _)

theorem endsOk_ite {c : Prop} [Decidable c] {q : ExceptT ε (Prog Op Res) α} :
    EndsOk step (if c then p else q) s l Q E ↔
      (c → EndsOk step p s l Q E) ∧ (¬ c → EndsOk step q s l Q E) := by
  split_ifs with hc
  · simp [hc]
  · simp [hc]

theorem EndsOk.mono {Q' : α → σ → List Op → Prop} {E' : ε → σ → List Op → Prop}
    (h : EndsOk step p s l Q E) (hQ : ∀ a s l, Q a s l → Q' a s l)
    (hE : ∀ e s l, E e s l → E' e s l) : EndsOk step p s l Q' E' := by
  refine Ends.mono h fun r s l hr => ?_
  cases r with
  | ok a => exact hQ a s l hr
  | error e => exact hE e s l hr

/-- The loop rule: what every turn keeps as long as it succeeds holds when the loop is over. The
assertion speaks of the elements that are done. -/
theorem endsOk_foldlM {ι : Type} {body : β → ι → ExceptT ε (Prog Op Res) β}
    (I : List ι → β → σ → List Op → Prop) (is : List ι)
    (hbody : ∀ pre i post, is = pre ++ i :: post → ∀ b s l, I pre b s l →
      EndsOk step (body b i) s l (I (pre ++ [i])) E) {b : β} (h : I [] b s l) :
    EndsOk step (is.foldlM body b) s l (I is) E := by
  have hrest : ∀ rest pre, is = pre ++ rest → ∀ b s l, I pre b s l →
      EndsOk step (rest.foldlM body b) s l (I is) E := by
    intro rest
    induction rest with
    | nil =>
      intro pre his b s l hb
      rw [append_nil] at his
      exact (endsOk_pure b).mpr (his ▸ hb)
    | cons i rest ih =>
      intro pre his b s l hb
      rw [foldlM_cons]
      refine endsOk_bind.mpr ((hbody pre i rest his b s l hb).mono (fun b' s' l' hb' => ?_)
        fun _ _ _ he => he)
      exact ih (pre ++ [i]) (by simpa using his) b' s' l' hb'
  exact hrest is [] rfl b s l h

end EndsOk

end Prog

end Nonux.Lib
