import Mathlib.Data.List.Basic

/-!
# Logs

A log is a list to which entries are added at the end. An entry that is in it has the entries before
it; adding one entry adds one such place (`append_one_eq_append_cons`).

Entries may be about a key, or about none. What is the case with a key is often what the last entry
about it says: `lastAbout` is that entry.
-/

namespace Nonux.Lib

open List

/-- An entry of a log with one entry more is the new one, or an old one with what was before it. -/
theorem append_one_eq_append_cons {E : Type} {log pre post : List E} {e e' : E}
    (h : log ++ [e] = pre ++ e' :: post) :
    pre = log ∧ e' = e ∨ ∃ post', log = pre ++ e' :: post' := by
  rcases append_eq_append_iff.mp h with ⟨mid, rfl, hmid⟩ | ⟨mid, rfl, hmid⟩
  · cases mid with
    | nil => exact .inl ⟨append_nil _, (List.cons.inj hmid).1.symm⟩
    | cons x mid => simp at hmid
  · cases mid with
    | nil => exact .inl ⟨(append_nil _).symm, (List.cons.inj hmid).1⟩
    | cons x mid =>
      obtain ⟨rfl, -⟩ := List.cons.inj hmid
      exact .inr ⟨mid, rfl⟩

variable {E K : Type} [DecidableEq K] (about : E → Option K)

/-- The last entry of the log that is about `k`. -/
def lastAbout (log : List E) (k : K) : Option E := log.reverse.find? fun e => decide (about e = some k)

variable {about}

@[simp] theorem lastAbout_nil (k : K) : lastAbout about [] k = none := rfl

theorem lastAbout_append_one (log : List E) (e : E) (k : K) :
    lastAbout about (log ++ [e]) k = if about e = some k then some e else lastAbout about log k := by
  rw [lastAbout, reverse_append, reverse_singleton, singleton_append, find?_cons]
  by_cases h : about e = some k
  · simp [h]
  · simp [h, lastAbout]

theorem lastAbout_append_of_forall {log es : List E} (h : ∀ e ∈ es, about e = none) (k : K) :
    lastAbout about (log ++ es) k = lastAbout about log k := by
  induction es generalizing log with
  | nil => rw [append_nil]
  | cons e es ih =>
    have hne : about e ≠ some k := by simp [h e mem_cons_self]
    rw [append_cons, ih fun e' he' => h e' (mem_cons_of_mem _ he'), lastAbout_append_one, if_neg hne]

theorem about_of_lastAbout {log : List E} {k : K} {e : E} (h : lastAbout about log k = some e) :
    about e = some k := by
  simpa using find?_some h

theorem mem_of_lastAbout {log : List E} {k : K} {e : E} (h : lastAbout about log k = some e) : e ∈ log :=
  mem_reverse.mp (mem_of_find?_eq_some h)

end Nonux.Lib
