import Nonux.Lib.Prog

/-!
# Procedures and callbacks

A program calls procedures and callbacks besides performing atomic operations. A procedure has a
body, which may call it again. A callback is code that is not known: it may do whatever the exported
procedures allow, and so it may come back into the program that called it, any number of times.

## The model

`Runs` is the big-step meaning of such programs. A run is finite, and it has a trace: what the
program asked for, with the answer and the state it asked in, but not what happened inside
callbacks. A condition `ok` on the atomic operations can be imposed on what happens inside
callbacks, while the program itself is free of it.

## The rules

Runs are reasoned about with contracts. A contract says of each procedure what a call of it does,
and of callbacks what may have happened when they return. `wp` is what a program guarantees if all
calls keep the contract, and `Runs.sound` is the rule: if every body keeps the contract, and if what
an exported procedure does is allowed to callbacks, then every run does what `wp` says. The
recursion through procedures and callbacks is in that rule, once. Where every atomic operation keeps
to a relation, so does everything (`Runs.keeps`).
-/

namespace Nonux.Lib

/-- What a program asks for. -/
inductive Req (A P C : Type) where
  | atom (a : A)
  | proc (f : P)
  | callback (c : C)

variable {A P C : Type}

/-- What it gets back. -/
@[reducible] def Req.Res (ra : A → Type) (rp : P → Type) (rc : C → Type) : Req A P C → Type
  | .atom a => ra a
  | .proc f => rp f
  | .callback c => rc c

/-- The meaning of atomic operations and procedures on a state, and the procedures that callbacks
may call. An atomic operation may have several outcomes. -/
structure CallSys (σ : Type) (ra : A → Type) (rp : P → Type) (rc : C → Type) where
  step : σ → (a : A) → σ → ra a → Prop
  body : (f : P) → Prog (Req A P C) (Req.Res ra rp rc) (rp f)
  exported : P → Prop

variable {σ : Type} {ra : A → Type} {rp : P → Type} {rc : C → Type}

/-- An entry of a trace: what was asked for and the answer, and the states before and after. -/
structure Asked (σ : Type) (ra : A → Type) (rp : P → Type) (rc : C → Type) where
  req : Req A P C
  res : Req.Res ra rp rc req
  before : σ
  after : σ

namespace CallSys

/-- Programs of the system. -/
abbrev M (_ : CallSys σ ra rp rc) := Prog (Req A P C) (Req.Res ra rp rc)

/-- Traces of the system. -/
abbrev Trace (_ : CallSys σ ra rp rc) := List (Asked σ ra rp rc)

/-- What a callback may ask for. -/
def Exported (S : CallSys σ ra rp rc) : Req A P C → Prop
  | .proc f => S.exported f
  | _ => False

/-- **Runs**: `Runs S ok chk p s tr s' a` if `p`, started in `s`, can end in `s'` and return `a`,
with the trace `tr`. Every atomic operation performed in a callback meets `ok`, and so do those of
`p` itself if `chk` is set. -/
inductive Runs (S : CallSys σ ra rp rc) (ok : σ → A → Prop) :
    Bool → {α : Type} → S.M α → σ → S.Trace → σ → α → Prop
  | pure {chk : Bool} {α : Type} (a : α) (s : σ) : Runs S ok chk (.pure a) s [] s a
  | atom {chk : Bool} {α : Type} {o : A} {k : ra o → S.M α} {s s₁ s' : σ} {r : ra o} {a : α}
      {tr : S.Trace} (hok : chk = true → ok s o) (hstep : S.step s o s₁ r)
      (hk : Runs S ok chk (k r) s₁ tr s' a) :
      Runs S ok chk (.op (.atom o) k) s (⟨.atom o, r, s, s₁⟩ :: tr) s' a
  /-- What the body asks for is part of the trace. -/
  | proc {chk : Bool} {α : Type} {f : P} {k : rp f → S.M α} {s s₁ s' : σ} {r : rp f} {a : α}
      {tr₁ tr₂ : S.Trace} (hbody : Runs S ok chk (S.body f) s tr₁ s₁ r)
      (hk : Runs S ok chk (k r) s₁ tr₂ s' a) :
      Runs S ok chk (.op (.proc f) k) s (⟨.proc f, r, s, s₁⟩ :: (tr₁ ++ tr₂)) s' a
  /-- A callback runs some program of exported procedures. -/
  | callback {chk : Bool} {α : Type} {c : C} {k : rc c → S.M α} {s s₁ s' : σ} {r : rc c} {a : α}
      {tr₁ tr₂ : S.Trace} (q : S.M (rc c)) (hq : Prog.All S.Exported q)
      (hrun : Runs S ok true q s tr₁ s₁ r) (hk : Runs S ok chk (k r) s₁ tr₂ s' a) :
      Runs S ok chk (.op (.callback c) k) s (⟨.callback c, r, s, s₁⟩ :: tr₂) s' a

variable {W : Req A P C → Prop}

theorem all_of_exported {S : CallSys σ ra rp rc} (hproc : ∀ f, W (.proc f)) {α : Type} {q : S.M α}
    (hq : Prog.All S.Exported q) : Prog.All W q := by
  refine hq.mono fun o ho => ?_
  cases o with
  | proc f => exact hproc f
  | atom _ => exact ho.elim
  | callback _ => exact ho.elim

variable {s : σ}

theorem Runs.mono {S : CallSys σ ra rp rc} {ok ok' : σ → A → Prop} (hok' : ∀ s o, ok s o → ok' s o)
    {chk : Bool} {α : Type} {p : S.M α} {s' : σ} {tr : S.Trace} {a : α}
    (hrun : Runs S ok chk p s tr s' a) : Runs S ok' chk p s tr s' a := by
  induction hrun with
  | pure a s => exact .pure a s
  | atom hok hstep _ ih => exact .atom (fun h => hok' _ _ (hok h)) hstep ih
  | proc _ _ ihbody ih => exact .proc ihbody ih
  | callback q hq _ _ ihrun ih => exact .callback q hq ihrun ih

/-! ### Contracts -/

/-- What a call of a procedure does, outside and inside of callbacks, and what may have happened
when a callback returns. -/
structure Contract (S : CallSys σ ra rp rc) where
  spec : Bool → (f : P) → σ → S.Trace → σ → rp f → Prop
  rely : σ → σ → Prop

variable {S : CallSys σ ra rp rc} {ok : σ → A → Prop} {K : Contract S} {chk : Bool} {α β : Type}

/-- What a program guarantees, if all calls keep the contract. -/
def wp (ok : σ → A → Prop) (K : Contract S) (chk : Bool) : S.M α → σ → (S.Trace → σ → α → Prop) → Prop
  | .pure a, s, Q => Q [] s a
  | .op (.atom o) k, s, Q => ∀ s₁ r, (chk = true → ok s o) → S.step s o s₁ r →
      wp ok K chk (k r) s₁ fun tr => Q (⟨.atom o, r, s, s₁⟩ :: tr)
  | .op (.proc f) k, s, Q => ∀ tr₁ s₁ r, K.spec chk f s tr₁ s₁ r →
      wp ok K chk (k r) s₁ fun tr => Q (⟨.proc f, r, s, s₁⟩ :: (tr₁ ++ tr))
  | .op (.callback c) k, s, Q => ∀ s₁ r, K.rely s s₁ →
      wp ok K chk (k r) s₁ fun tr => Q (⟨.callback c, r, s, s₁⟩ :: tr)

variable {p : S.M α} {Q : S.Trace → σ → α → Prop}

theorem wp_mono {Q' : S.Trace → σ → α → Prop} (h : wp ok K chk p s Q)
    (hQ : ∀ tr s a, Q tr s a → Q' tr s a) : wp ok K chk p s Q' := by
  induction p generalizing s Q Q' with
  | pure a => exact hQ [] s a h
  | op o k ih =>
    cases o with
    | atom o => exact fun s₁ r hok hstep => ih r (h s₁ r hok hstep) fun _ => hQ _
    | proc f => exact fun tr₁ s₁ r hspec => ih r (h tr₁ s₁ r hspec) fun _ => hQ _
    | callback c => exact fun s₁ r hrely => ih r (h s₁ r hrely) fun _ => hQ _

theorem wp_true (p : S.M α) (s : σ) : wp ok K chk p s fun _ _ _ => True := by
  induction p generalizing s with
  | pure a => trivial
  | op o k ih =>
    cases o with
    | atom o => exact fun s₁ r _ _ => ih r s₁
    | proc f => exact fun _ s₁ r _ => ih r s₁
    | callback c => exact fun s₁ r _ => ih r s₁

/-- What a guarantee may assume. -/
theorem wp_imp {H : Prop} (h : H → wp ok K chk p s Q) :
    wp ok K chk p s fun tr s' a => H → Q tr s' a := by
  by_cases hH : H
  · exact wp_mono (h hH) fun _ _ _ hQ _ => hQ
  · exact wp_mono (wp_true p s) fun _ _ _ _ hH' => absurd hH' hH

theorem wp_forall {ι : Sort*} {Q : ι → S.Trace → σ → α → Prop} (h : ∀ i, wp ok K chk p s (Q i)) :
    wp ok K chk p s fun tr s' a => ∀ i, Q i tr s' a := by
  induction p generalizing s Q with
  | pure a => exact h
  | op o k ih =>
    cases o with
    | atom o => exact fun s₁ r hok hstep => ih r fun i => h i s₁ r hok hstep
    | proc f => exact fun tr₁ s₁ r hspec => ih r fun i => h i tr₁ s₁ r hspec
    | callback c => exact fun s₁ r hrely => ih r fun i => h i s₁ r hrely

/-- One program after the other. -/
theorem wp_bind {f : α → S.M β} {Q : S.Trace → σ → β → Prop} :
    wp ok K chk (p >>= f) s Q ↔ wp ok K chk p s fun tr s' a => wp ok K chk (f a) s' fun tr' => Q
      (tr ++ tr') := by
  induction p generalizing s Q with
  | pure a => exact Iff.rfl
  | op o k ih =>
    cases o with
    | atom o => exact forall₄_congr fun s₁ r _ _ => ih r
    | proc f =>
      refine forall₄_congr fun tr₁ s₁ r _ => (ih r).trans ?_
      simp only [List.cons_append, List.append_assoc]
    | callback c => exact forall₃_congr fun s₁ r _ => ih r

/-- A request that keeps to the relation `R`. -/
def Keeps (ok : σ → A → Prop) (K : Contract S) (chk : Bool) (R : σ → σ → Prop) : Req A P C → Prop
  | .atom o => ∀ s s' r, (chk = true → ok s o) → S.step s o s' r → R s s'
  | .proc f => ∀ s tr s' r, K.spec chk f s tr s' r → R s s'
  | .callback _ => ∀ s s', K.rely s s' → R s s'

variable {R : σ → σ → Prop}

/-- **The frame rule**: a program whose requests all keep to a relation keeps to it. -/
theorem wp_of_keeps (hrefl : ∀ s, R s s) (htrans : ∀ s s₁ s', R s s₁ → R s₁ s' → R s s')
    (h : Prog.All (Keeps ok K chk R) p) (s : σ) : wp ok K chk p s fun _ s' _ => R s s' := by
  induction p generalizing s with
  | pure a => exact hrefl s
  | op o k ih =>
    obtain ⟨ho, hk⟩ := h
    cases o with
    | atom o =>
      intro s₁ r hok hstep
      exact wp_mono (ih r (hk r) s₁) fun _ s' _ => htrans s s₁ s' (ho s s₁ r hok hstep)
    | proc f =>
      intro tr₁ s₁ r hspec
      exact wp_mono (ih r (hk r) s₁) fun _ s' _ => htrans s s₁ s' (ho s tr₁ s₁ r hspec)
    | callback c =>
      intro s₁ r hrely
      exact wp_mono (ih r (hk r) s₁) fun _ s' _ => htrans s s₁ s' (ho s s₁ hrely)

/-- A request that keeps an invariant, and leaves such entries in the trace as `E` says. -/
def Leaves (ok : σ → A → Prop) (K : Contract S) (chk : Bool) (I : σ → Prop)
    (E : Asked σ ra rp rc → Prop) : Req A P C → Prop
  | .atom o => ∀ s s' r, I s → (chk = true → ok s o) → S.step s o s' r → I s' ∧ E ⟨.atom o, r, s, s'⟩
  | .proc f => ∀ s tr s' r, I s → K.spec chk f s tr s' r → I s' ∧ E ⟨.proc f, r, s, s'⟩ ∧ ∀ e ∈ tr, E e
  | .callback c => ∀ s s' r, I s → K.rely s s' → I s' ∧ E ⟨.callback c, r, s, s'⟩

/-- **The trace rule**: what every request leaves in the trace, the program does. -/
theorem wp_of_leaves {I : σ → Prop} {E : Asked σ ra rp rc → Prop}
    (h : Prog.All (Leaves ok K chk I E) p) (hs : I s) :
    wp ok K chk p s fun tr s' _ => I s' ∧ ∀ e ∈ tr, E e := by
  induction p generalizing s with
  | pure a => exact ⟨hs, by simp⟩
  | op o k ih =>
    obtain ⟨ho, hk⟩ := h
    cases o with
    | atom o =>
      intro s₁ r hok hstep
      obtain ⟨hs₁, he⟩ := ho s s₁ r hs hok hstep
      exact wp_mono (ih r (hk r) hs₁) fun tr s' _ h => ⟨h.1, List.forall_mem_cons.mpr ⟨he, h.2⟩⟩
    | proc f =>
      intro tr₁ s₁ r hspec
      obtain ⟨hs₁, he, htr₁⟩ := ho s tr₁ s₁ r hs hspec
      refine wp_mono (ih r (hk r) hs₁) fun tr s' _ h => ⟨h.1, List.forall_mem_cons.mpr ⟨he, ?_⟩⟩
      exact List.forall_mem_append.mpr ⟨htr₁, h.2⟩
    | callback c =>
      intro s₁ r hrely
      obtain ⟨hs₁, he⟩ := ho s s₁ r hs hrely
      exact wp_mono (ih r (hk r) hs₁) fun tr s' _ h => ⟨h.1, List.forall_mem_cons.mpr ⟨he, h.2⟩⟩

/-- A contract that the bodies keep, and that lets callbacks do what is exported. -/
structure Contract.Kept (K : Contract S) (ok : σ → A → Prop) : Prop where
  body : ∀ chk f s, wp ok K chk (S.body f) s fun tr s' r => K.spec chk f s tr s' r
  exported : ∀ f, S.exported f → ∀ s tr s' r, K.spec true f s tr s' r → K.rely s s'
  refl : ∀ s, K.rely s s
  trans : ∀ s s₁ s', K.rely s s₁ → K.rely s₁ s' → K.rely s s'

/-- What a callback runs keeps to what is allowed to it. -/
theorem Contract.Kept.wp_exported (h : K.Kept ok) {q : S.M α} (hq : Prog.All S.Exported q) (s : σ) :
    wp ok K true q s fun _ s' _ => K.rely s s' := by
  refine wp_of_keeps h.refl h.trans ?_ s
  induction q with
  | pure a => trivial
  | op o k ih =>
    refine ⟨?_, fun r => ih r (hq.2 r)⟩
    cases o with
    | proc f => exact h.exported f hq.1
    | atom _ | callback _ => exact hq.1.elim

variable {a : α} {tr : S.Trace}

/-- **The rule of contracts**: if the bodies keep the contract, a run does what `wp` says. -/
theorem Runs.sound (h : K.Kept ok) {s' : σ} (hrun : Runs S ok chk p s tr s' a)
    (hwp : wp ok K chk p s Q) : Q tr s' a := by
  induction hrun with
  | pure a s => exact hwp
  | atom hok hstep hk ih => exact ih (hwp _ _ hok hstep)
  | proc hbody hk ihbody ih => exact ih (hwp _ _ _ (ihbody (h.body _ _ _)))
  | callback q hq hrun hk ihrun ih => exact ih (hwp _ _ (ihrun (h.wp_exported hq _)))

/-- The contract that everything keeps to a relation. -/
def Contract.ofRel (S : CallSys σ ra rp rc) (R : σ → σ → Prop) : Contract S where
  spec _ _ s _ s' _ := R s s'
  rely := R

theorem all_keeps_ofRel (hatom : ∀ s o s' r, S.step s o s' r → R s s') (p : S.M α) :
    Prog.All (Keeps ok (Contract.ofRel S R) chk R) p := by
  induction p with
  | pure a => trivial
  | op o k ih =>
    refine ⟨?_, ih⟩
    cases o with
    | atom o => exact fun s s' r _ => hatom s o s' r
    | proc f => exact fun s tr s' r h => h
    | callback c => exact fun s s' h => h

/-- It is kept if all atomic operations keep to the relation. -/
theorem Contract.ofRel_kept (hrefl : ∀ s, R s s) (htrans : ∀ s s₁ s', R s s₁ → R s₁ s' → R s s')
    (hatom : ∀ s o s' r, S.step s o s' r → R s s') : (Contract.ofRel S R).Kept ok where
  body _ f := wp_of_keeps hrefl htrans (all_keeps_ofRel hatom (S.body f))
  exported _ _ _ _ _ _ h := h
  refl := hrefl
  trans := htrans

/-- **The rule of invariants**: what the atomic operations keep that the bodies perform holds
wherever one is performed, inside of callbacks too. -/
theorem Runs.always {I : σ → Prop} (hproc : ∀ f, W (.proc f)) (hbody : ∀ f, Prog.All W (S.body f))
    (hatom : ∀ s o s' r, W (.atom o) → ok s o → S.step s o s' r → I s → I s') (hp : Prog.All W p)
    {s' : σ} (hrun : Runs S ok true p s tr s' a) (hs : I s) :
    Runs S (fun s o => ok s o ∧ I s) true p s tr s' a ∧ I s' := by
  generalize hchk : true = chk at hrun
  induction hrun with
  | pure a s => exact ⟨.pure a s, hs⟩
  | atom hok hstep hk ih =>
    obtain ⟨hrest, hs'⟩ := ih (hp.2 _) (hatom _ _ _ _ hp.1 (hok hchk.symm) hstep hs) hchk
    exact ⟨.atom (fun h => ⟨hok h, hs⟩) hstep hrest, hs'⟩
  | proc hbody' hk ihbody ih =>
    obtain ⟨hfirst, hs₁⟩ := ihbody (hbody _) hs hchk
    obtain ⟨hrest, hs'⟩ := ih (hp.2 _) hs₁ hchk
    exact ⟨.proc hfirst hrest, hs'⟩
  | callback q hq hrun hk ihrun ih =>
    obtain ⟨hfirst, hs₁⟩ := ihrun (all_of_exported hproc hq) hs rfl
    obtain ⟨hrest, hs'⟩ := ih (hp.2 _) hs₁ hchk
    exact ⟨.callback q hq hfirst hrest, hs'⟩

/-- **The rule of relations**: what all atomic operations keep to, every run keeps to. -/
theorem Runs.keeps (hrefl : ∀ s, R s s) (htrans : ∀ s s₁ s', R s s₁ → R s₁ s' → R s s')
    (hatom : ∀ s o s' r, S.step s o s' r → R s s') {s' : σ} (hrun : Runs S ok chk p s tr s' a) :
    R s s' :=
  hrun.sound (Contract.ofRel_kept hrefl htrans hatom)
    (wp_of_keeps hrefl htrans (all_keeps_ofRel hatom p) s)

/-! ### Running -/

/-- Someone who decides what atomic operations and callbacks do, and which ones are allowed. -/
structure Driver (S : CallSys σ ra rp rc) where
  allow : σ → A → Bool := fun _ _ => true
  atom : σ → (o : A) → σ × ra o
  callback : σ → (c : C) → S.M (rc c)
  step_atom : ∀ s o, S.step s o (atom s o).1 (atom s o).2
  exported : ∀ s c, Prog.All S.Exported (callback s c)

/-- Run a program for at most so many nested steps. -/
def eval (D : Driver S) : ℕ → (α : Type) → S.M α → σ → Option (σ × α)
  | 0, _, _, _ => none
  | _ + 1, _, .pure a, s => some (s, a)
  | n + 1, α, .op (.atom o) k, s => if D.allow s o then eval D n α (k (D.atom s o).2) (D.atom s o).1
      else none
  | n + 1, α, .op (.proc f) k, s => (eval D n (rp f) (S.body f) s).bind fun out => eval D n α
      (k out.2) out.1
  | n + 1, α, .op (.callback c) k, s =>
    (eval D n (rc c) (D.callback s c) s).bind fun out => eval D n α (k out.2) out.1

/-- The state that running a program ends in. -/
def evalState (D : Driver S) (n : ℕ) (p : S.M α) (s : σ) : σ := ((eval D n α p s).map (·.1)).getD s

/-- What comes of running a program is a run of it. The condition on what happens in callbacks has
to be met; it is if callbacks do nothing. -/
theorem runs_of_eval {D : Driver S} {n : ℕ}
    (hcb : ∀ s c, (∃ r, D.callback s c = .pure r) ∨ ∀ s o, D.allow s o = true → ok s o)
    (hok : chk = true → ∀ s o, D.allow s o = true → ok s o) {s' : σ}
    (h : eval D n α p s = some (s', a)) : ∃ tr, Runs S ok chk p s tr s' a := by
  induction n generalizing chk α s s' with
  | zero => cases h
  | succ n ih =>
    cases p with
    | pure a' =>
      obtain ⟨rfl, rfl⟩ := Prod.mk.inj (Option.some.inj h)
      exact ⟨_, .pure _ _⟩
    | op o k =>
      cases o with
      | atom o =>
        obtain ⟨hallow, h⟩ := Option.ite_none_right_eq_some.mp h
        obtain ⟨tr, htr⟩ := ih hok h
        exact ⟨_, .atom (fun hchk => hok hchk s o hallow) (D.step_atom s o) htr⟩
      | proc f =>
        obtain ⟨⟨s₁, r⟩, hbody, hk⟩ := Option.bind_eq_some_iff.mp h
        obtain ⟨tr₁, htr₁⟩ := ih hok hbody
        obtain ⟨tr₂, htr₂⟩ := ih hok hk
        exact ⟨_, .proc htr₁ htr₂⟩
      | callback c =>
        obtain ⟨⟨s₁, r⟩, hrun, hk⟩ := Option.bind_eq_some_iff.mp h
        obtain ⟨tr₂, htr₂⟩ := ih hok hk
        have hcall : ∃ tr₁, Runs S ok true (D.callback s c) s tr₁ s₁ r := by
          rcases hcb s c with ⟨r', hpure⟩ | hall
          · cases n with
            | zero => cases hrun
            | succ n =>
              rw [hpure] at hrun ⊢
              obtain ⟨rfl, rfl⟩ := Prod.mk.inj (Option.some.inj hrun)
              exact ⟨_, .pure _ _⟩
          · exact ih (fun _ => hall) hrun
        obtain ⟨tr₁, htr₁⟩ := hcall
        exact ⟨_, .callback _ (D.exported s c) htr₁ htr₂⟩

/-- The same, for an answer that was computed. -/
theorem runs_evalState {D : Driver S} {n : ℕ}
    (hcb : ∀ s c, (∃ r, D.callback s c = .pure r) ∨ ∀ s o, D.allow s o = true → ok s o)
    (hok : chk = true → ∀ s o, D.allow s o = true → ok s o) (h : (eval D n α p s).map (·.2) = some a) :
    ∃ tr, Runs S ok chk p s tr (evalState D n p s) a := by
  obtain ⟨⟨s', a'⟩, heval, rfl⟩ := Option.map_eq_some_iff.mp h
  rw [evalState, heval]
  exact runs_of_eval hcb hok heval

end CallSys

end Nonux.Lib
