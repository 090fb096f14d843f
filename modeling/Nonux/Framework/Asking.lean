import Nonux.Framework.Component

/-!
# What hooks and components are asked

The hooks and the component are asked before a component is enabled, resumed or disabled. What comes
of it depends on the answers to these questions alone (`Answers.AgreeOn.agrees_iff`), and no other
answers are used up (`consult_of_not_asks`).
-/

namespace Nonux.Framework

/-- What hooks and component are asked for a verb. -/
structure Ask where
  point : LifecycleHook
  next : LifecycleState
  op : CompOp

/-- What is asked by `nx_component_enable`. -/
def Ask.enable : Ask := ⟨.enable, .active, .enable⟩

/-- What is asked by `nx_component_resume`. -/
def Ask.resume : Ask := ⟨.resume, .active, .resume⟩

/-- What is asked by `nx_component_disable`. -/
def Ask.disable : Ask := ⟨.disable, .ready, .disable⟩

/-- No hook aborts, and the component does not refuse, when they are asked next. -/
def Answers.Agrees (a : Answers) (q : Ask) (ops : List CompOp) (c : CompId) : Prop :=
  (a.consult ops q.point q.next q.op c).2 = nxOk

instance (a : Answers) (q : Ask) (ops : List CompOp) (c : CompId) : Decidable (a.Agrees q ops c) :=
  inferInstanceAs (Decidable (_ = _))

/-- The questions of the verb. -/
def Ask.Asks (q : Ask) (c : CompId) (o : FwOp) : Prop := o = .hook q.point c q.next ∨ o = .op q.op c

/-- The answers are the same to the questions of the verb. -/
def Answers.AgreeOn (q : Ask) (c : CompId) (a a' : Answers) : Prop := ∀ o, q.Asks c o → a o = a' o

variable {a a' : Answers} {q : Ask} {c : CompId}

theorem Answers.AgreeOn.trans {a'' : Answers} (h : a.AgreeOn q c a') (h' : a'.AgreeOn q c a'') :
    a.AgreeOn q c a'' := fun o ho => (h o ho).trans (h' o ho)

theorem Answers.AgreeOn.agrees_iff (h : a.AgreeOn q c a') (ops : List CompOp) :
    a.Agrees q ops c ↔ a'.Agrees q ops c := by
  have hafter : ∀ a : Answers, a.after (.hook q.point c q.next) (.op q.op c) = a (.op q.op c) :=
    fun a => Answers.after_of_ne (by simp)
  simp only [Answers.Agrees, Answers.consult, Answers.askOp, apply_ite Prod.snd, hafter,
    h _ (.inl rfl), h _ (.inr rfl)]

/-- No answers are used up but those to the questions. -/
theorem consult_of_not_asks (a : Answers) (ops : List CompOp) {o : FwOp} (h : ¬ q.Asks c o) :
    (a.consult ops q.point q.next q.op c).1 o = a o := by
  simp only [Ask.Asks, not_or] at h
  have hhook : a.after (.hook q.point c q.next) o = a o := Answers.after_of_ne h.1
  simp only [Answers.consult, Answers.askOp]
  split_ifs
  · exact hhook
  · exact (Answers.after_of_ne h.2).trans hhook
  · exact hhook

/-- Different components are asked different questions. -/
theorem Ask.Asks.unique {q' : Ask} {c' : CompId} {o : FwOp} (h : q.Asks c o) (h' : q'.Asks c' o) :
    c = c' := by
  rcases h with rfl | rfl
  · obtain ⟨-, hc, -⟩ : q.point = q'.point ∧ c = c' ∧ q.next = q'.next := by
      simpa [Ask.Asks] using h'
    exact hc
  · obtain ⟨-, hc⟩ : q.op = q'.op ∧ c = c' := by simpa [Ask.Asks] using h'
    exact hc

end Nonux.Framework
