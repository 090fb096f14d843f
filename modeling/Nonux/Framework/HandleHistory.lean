import Nonux.Framework.Handle

/-!
# Stale handles over whole histories of a table

A handle stops resolving when its entry is freed. Whether it stays dead depends on
every later operation: an entry that is handed out again must carry a generation
the old handle does not have. `nx_handle_close` and slot invalidation advance the
generation when they free an entry; `nx_handle_table_init` keeps it.

* `TableOp.apply_entry` lists what one operation can do to one entry.
* `generation_run`: along a run a generation only grows, by
  at most the number of times its entry was freed.
* `freed_handle_stays_dead_iff`: a handle that was closed or invalidated never
  resolves again; one that was wiped by an init stays dead exactly as long as its
  entry stays free.
-/

namespace Nonux.Framework

open Nonux.Lib Function

universe u v

variable {Obj : Type u} {Slot : Type v}

/-- The word resolves to some entry. -/
def Resolves (t : HandleTable Obj Slot) (h : Handle) : Prop := ∃ i, resolve t h = .ok i

instance (t : HandleTable Obj Slot) (h : Handle) : Decidable (Resolves t h) :=
  match hr : resolve t h with
  | .ok i => .isTrue ⟨i, hr⟩
  | .error _ => .isFalse fun ⟨i, hi⟩ => by simp [hr] at hi

variable {i : EntryIdx} {h : Handle}

theorem live_of_resolves {t : HandleTable Obj Slot} (hi : decodeIndex h = some i)
    (hres : Resolves t h) : (t.entries i).Live := by
  obtain ⟨j, hj⟩ := hres
  obtain ⟨hdec, hlive, -⟩ := resolve_eq_ok_iff.mp hj
  rw [hi, Option.some.injEq] at hdec
  rwa [hdec]

variable [DecidableEq Obj] [DecidableEq Slot]

/-- The operation frees entry `i`. -/
def TableOp.Frees (t : HandleTable Obj Slot) (op : TableOp Obj Slot) (i : EntryIdx) : Prop :=
  (t.entries i).Live ∧ ¬ ((op.apply t).entries i).Live

instance (t : HandleTable Obj Slot) (op : TableOp Obj Slot) (i : EntryIdx) : Decidable (op.Frees t i) :=
  inferInstanceAs (Decidable (_ ∧ _))

/-- How often the operations `ops`, taken from `t`, free entry `i`. -/
def timesFreed (i : EntryIdx) : HandleTable Obj Slot → List (TableOp Obj Slot) → ℕ
  | _, [] => 0
  | t, op :: ops => (if op.Frees t i then 1 else 0) + timesFreed i (op.apply t) ops

theorem timesFreed_append (i : EntryIdx) (t : HandleTable Obj Slot)
    (ops₁ ops₂ : List (TableOp Obj Slot)) : timesFreed i t (ops₁ ++ ops₂) =
      timesFreed i t ops₁ + timesFreed i (runFrom TableOp.apply t ops₁) ops₂ := by
  induction ops₁ generalizing t with
  | nil => simp [timesFreed]
  | cons op ops ih => simp [timesFreed, ih, Nat.add_assoc]

/-! ### One operation, one entry -/

/-- What one operation can do to the entry `e`, which becomes `e'`. -/
inductive EntryStep (op : TableOp Obj Slot) (e e' : HandleEntry Obj Slot) : Prop
  /-- Nothing. -/
  | same (h : e' = e)
  /-- Hand it out, under the generation it has. -/
  | occupied (hfree : ¬ e.Live) (hlive : e'.Live) (hgen : e'.generation = e.generation)
  /-- Close it. -/
  | closed (hop : op ≠ .init) (hlive : e.Live) (h : e' = e.closed)
  /-- Wipe it. -/
  | wiped (hop : op = .init) (h : e' = { generation := e.generation })

theorem TableOp.apply_entry (t : HandleTable Obj Slot) (op : TableOp Obj Slot) (j : EntryIdx) :
    EntryStep op (t.entries j) ((op.apply t).entries j) := by
  cases op with
  | call c =>
    rw [TableOp.apply]
    cases hrun : c.run t with
    | error e => exact .same rfl
    | ok r =>
      obtain ⟨t', h⟩ := r
      obtain ⟨i, e, hf, rfl, -, hlive, hgen, -⟩ := AllocCall.run_ok hrun
      by_cases hji : j = i
      · subst hji
        simp only [HandleTable.occupy, update_self]
        exact .occupied (firstFree_some hf) hlive hgen
      · simp only [HandleTable.occupy, update_of_ne hji]
        exact .same rfl
  | close h =>
    rw [TableOp.apply]
    cases hclose : nxHandleClose t h with
    | error e => exact .same rfl
    | ok t' =>
      obtain ⟨i, hi, rfl⟩ := nxHandleClose_ok_iff.mp hclose
      by_cases hji : j = i
      · subst hji
        simp only [HandleTable.release, update_self]
        exact .closed (by simp) (resolve_eq_ok_iff.mp hi).2.1 rfl
      · simp only [HandleTable.release, update_of_ne hji]
        exact .same rfl
  | init => exact .wiped rfl rfl
  | invalidateForSlot s =>
    rw [TableOp.apply, invalidateSlotCb_entries]
    split_ifs with h
    · exact .closed (by simp) h.2 rfl
    · exact .same rfl

/-- The generation advances by one when the entry is freed, or not at all. -/
theorem generation_apply (t : HandleTable Obj Slot) (op : TableOp Obj Slot) (i : EntryIdx) :
    ((op.apply t).entries i).generation = (t.entries i).generation ∨
      op.Frees t i ∧ ((op.apply t).entries i).generation = (t.entries i).generation + 1 := by
  cases TableOp.apply_entry t op i with
  | same h => exact .inl (by rw [h])
  | occupied _ _ hgen => exact .inl hgen
  | closed _ hlive h => exact .inr ⟨⟨hlive, by rw [h]; exact HandleEntry.not_live_closed _⟩,
      by rw [h]; rfl⟩
  | wiped _ h => exact .inl (by rw [h])

/-! ### Whole runs -/

/-- A generation grows by at most the number of frees, and does not decrease while these do not
exhaust its 32 bits. -/
theorem generation_run (t : HandleTable Obj Slot) (ops : List (TableOp Obj Slot)) (i : EntryIdx) :
    ((runFrom TableOp.apply t ops).entries i).generation.toNat ≤
    (t.entries i).generation.toNat + timesFreed i t ops ∧
      ((t.entries i).generation.toNat + timesFreed i t ops < 2 ^ 32 →
        (t.entries i).generation.toNat ≤
        ((runFrom TableOp.apply t ops).entries i).generation.toNat) := by
  induction ops generalizing t with
  | nil => simp
  | cons op ops ih =>
    obtain ⟨hle, hge⟩ := ih (op.apply t)
    simp only [runFrom_cons, timesFreed]
    rcases generation_apply t op i with h | ⟨hf, h⟩
    · rw [h] at hle hge
      exact ⟨by omega, fun hbound => hge (by omega)⟩
    · rw [h, UInt32.toNat_add, show (1 : UInt32).toNat = 1 from rfl] at hle hge
      rw [if_pos hf]
      have := Nat.mod_le ((t.entries i).generation.toNat + 1) (2 ^ 32)
      refine ⟨by omega, fun hbound => ?_⟩
      have hmod := Nat.mod_eq_of_lt (show (t.entries i).generation.toNat + 1 < 2 ^ 32 by omega)
      have := hge (by omega)
      omega

/-- A handle whose generation its entry has passed is dead for the rest of the run. -/
theorem not_resolves_of_generation_lt {t : HandleTable Obj Slot} {ops : List (TableOp Obj Slot)}
    (hi : decodeIndex h = some i) (hlt : (decodeGeneration h).toNat < (t.entries i).generation.toNat)
    (hbound : (t.entries i).generation.toNat + timesFreed i t ops < 2 ^ 32) :
    ¬ Resolves (runFrom TableOp.apply t ops) h := by
  rintro ⟨j, hj⟩
  obtain ⟨hdec, -, hgen⟩ := resolve_eq_ok_iff.mp hj
  rw [hi, Option.some.injEq] at hdec
  subst hdec
  have := (generation_run t ops i).2 hbound
  rw [hgen] at this
  omega

/-- From a free entry under the handle's own generation, the handle stays dead only if
the entry stays free: the first operation to hand the entry out revives it. -/
theorem not_live_of_not_resolves (hi : decodeIndex h = some i) :
    ∀ (ops : List (TableOp Obj Slot)) (t : HandleTable Obj Slot), ¬ (t.entries i).Live →
      (t.entries i).generation = decodeGeneration h →
      (∀ rest, rest <+: ops → ¬ Resolves (runFrom TableOp.apply t rest) h) →
        ¬ ((runFrom TableOp.apply t ops).entries i).Live
  | [], _, hfree, _, _ => hfree
  | op :: ops, t, hfree, hgen, hdead => by
    have hdead' : ∀ rest, rest <+: ops → ¬ Resolves (runFrom TableOp.apply (op.apply t) rest) h :=
      fun rest hrest => hdead (op :: rest) (List.cons_prefix_cons.mpr ⟨rfl, hrest⟩)
    have hnext : ¬ ((op.apply t).entries i).Live ∧
        ((op.apply t).entries i).generation = decodeGeneration h := by
      cases TableOp.apply_entry t op i with
      | same h => rw [h]; exact ⟨hfree, hgen⟩
      | occupied _ hlive hgen' =>
        exact absurd ⟨i, resolve_eq_ok_iff.mpr ⟨hi, hlive, hgen'.trans hgen⟩⟩ (hdead' [] List.nil_prefix)
      | closed _ hlive _ => exact absurd hlive hfree
      | wiped _ h => rw [h]; exact ⟨by simp [HandleEntry.Live], hgen⟩
    exact not_live_of_not_resolves hi ops (op.apply t) hnext.1 hnext.2 hdead'

/-- A handle that is closed is dead for the rest of the run. -/
theorem not_resolves_of_closed {ops₁ rest : List (TableOp Obj Slot)} {op : TableOp Obj Slot}
    (hi : decodeIndex h = some i) (hgen : ((tableAfter ops₁).entries i).generation = decodeGeneration h)
    (hclosed : (op.apply (tableAfter ops₁)).entries i = ((tableAfter ops₁).entries i).closed)
    (hbound : timesFreed i {} (ops₁ ++ op :: rest) < 2 ^ 24) :
    ¬ Resolves (runFrom TableOp.apply (op.apply (tableAfter ops₁)) rest) h := by
  -- The frees so far bound the generation, so advancing it did not wrap.
  have hsofar := (generation_run {} ops₁ i).1
  have hzero : ((({} : HandleTable Obj Slot).entries i).generation).toNat = 0 := rfl
  rw [timesFreed_append, timesFreed] at hbound
  have hnext : ((op.apply (tableAfter ops₁)).entries i).generation.toNat =
      ((tableAfter ops₁).entries i).generation.toNat + 1 := by
    rw [hclosed, HandleEntry.closed, UInt32.toNat_add]
    refine Nat.mod_eq_of_lt ?_
    change _ + 1 < _
    unfold tableAfter
    omega
  unfold tableAfter at hnext hgen ⊢
  refine not_resolves_of_generation_lt hi ?_ ?_
  · rw [hnext, hgen]; omega
  · omega

/-- **Closed and invalidated handles stay dead; a wiped one stays dead exactly as long
as its entry stays free.** The handle `h` resolves after `ops₁` and is freed by
`op`; `ops₂` is the rest of the run, in all of which no entry is freed `2 ^ 24` times. -/
theorem freed_handle_stays_dead_iff (ops₁ ops₂ : List (TableOp Obj Slot)) (op : TableOp Obj Slot)
    (h : Handle) (i : EntryIdx) (hres : resolve (tableAfter ops₁) h = .ok i)
    (hfreed : ¬ Resolves (tableAfter (ops₁ ++ [op])) h)
    (hbound : ∀ j, timesFreed j {} (ops₁ ++ op :: ops₂) < 2 ^ 24) :
    (∀ rest, rest <+: ops₂ → ¬ Resolves (tableAfter (ops₁ ++ op :: rest)) h) ↔
      (op = .init → ∀ rest, rest <+: ops₂ → ¬ ((tableAfter (ops₁ ++ op :: rest)).entries i).Live) := by
  obtain ⟨hi, hlive, hgen⟩ := resolve_eq_ok_iff.mp hres
  have hrun : ∀ rest, tableAfter (ops₁ ++ op :: rest) =
      runFrom TableOp.apply (op.apply (tableAfter ops₁)) rest := fun rest => by
    rw [tableAfter, runFrom_append, runFrom_cons]; rfl
  rw [hrun, runFrom_nil] at hfreed
  simp only [hrun]
  cases TableOp.apply_entry (tableAfter ops₁) op i with
  | same hsame =>
    exact absurd ⟨i, resolve_eq_ok_iff.mpr
      ⟨hi, by rw [hsame]; exact hlive, by rw [hsame]; exact hgen⟩⟩ hfreed
  | occupied hfree _ _ => exact absurd hlive hfree
  | closed hop _ hclosed =>
    refine iff_of_true (fun rest hrest => ?_) fun hinit => absurd hinit hop
    refine not_resolves_of_closed hi hgen hclosed (lt_of_le_of_lt ?_ (hbound i))
    obtain ⟨tail, rfl⟩ := hrest
    rw [← List.cons_append, ← List.append_assoc, timesFreed_append _ _ (ops₁ ++ op :: rest)]
    omega
  | wiped hop hwiped =>
    have hfree' : ¬ ((op.apply (tableAfter ops₁)).entries i).Live := by
      rw [hwiped]; simp [HandleEntry.Live]
    have hgen' : ((op.apply (tableAfter ops₁)).entries i).generation = decodeGeneration h := by
      rw [hwiped, ← hgen]
    constructor
    · intro hdead _ rest hrest
      exact not_live_of_not_resolves hi rest _ hfree' hgen' fun r hr => hdead r (hr.trans hrest)
    · intro hstays rest hrest hr
      exact hstays hop rest hrest (live_of_resolves hi hr)

/-- The theorem where it speaks of a close: the entry is handed out again, under
another handle. -/
theorem closed_handle_stays_dead :
    let open_ : TableOp Unit Unit := .call (.alloc .channel 3 (.ptr ()))
    Resolves (tableAfter [open_]) 1 ∧ ¬ Resolves (tableAfter [open_, .close 1]) 1 ∧
      ∀ rest, rest <+: [open_] → ¬ Resolves (tableAfter ([open_] ++ .close 1 :: rest)) 1 :=
  ⟨by decide, by decide,
    (freed_handle_stays_dead_iff [.call (.alloc .channel 3 (.ptr ()))]
      [.call (.alloc .channel 3 (.ptr ()))]
      (.close 1) 1 0 rfl (by decide) (by decide +kernel)).mpr nofun⟩

/-- An init wipes the live handle 1; the next allocation hands the same value out, and
it resolves again. -/
theorem wiped_handle_revives :
    let open_ : TableOp Unit Unit := .call (.alloc .channel 3 (.ptr ()))
    Resolves (tableAfter [open_]) 1 ∧ ¬ Resolves (tableAfter [open_, .init]) 1 ∧
      (∀ j, timesFreed j {} [open_, .init, open_] < 2 ^ 24) ∧
      Resolves (tableAfter [open_, .init, open_]) 1 := by
  decide +kernel

end Nonux.Framework
