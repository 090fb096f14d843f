import Mathlib.Data.List.TakeWhile
import Nonux.Framework.Ipc

/-!
# The hold queues

The list `g_holds` has one queue for each pair of slots. A flush takes the queues of a slot out of
the list, one after the other, and sends their messages again. While it does, hooks and handlers
run: they may hold more messages, which puts new entries in front of the list, and flush slots,
which takes entries out of it.

Here is what the operations on the list do: holding a message (`Enqueued`), the head of the loop of
a flush (`Sought`), and taking a message out (`HoldDequeued`).
-/

namespace Nonux.Framework

open Nonux.Lib List

/-! ### Finding an entry -/

/-- The entry is that of a pair of slots. -/
def HoldEntry.on (src dst : SlotId) (e : HoldEntry) : Bool := decide (e.src = src ∧ e.dst = dst)

/-- What identifies an entry: none of it changes. -/
def HoldEntry.key (e : HoldEntry) : ℕ × SlotId × SlotId := (e.id, e.src, e.dst)

/-- The messages held between two slots. -/
def heldOn (holds : List HoldEntry) (src dst : SlotId) : List IpcMessage :=
  ((holds.find? (HoldEntry.on src dst)).map (·.queue)).getD []

theorem heldOn_cons (e : HoldEntry) (l : List HoldEntry) (a b : SlotId) :
    heldOn (e :: l) a b = if e.src = a ∧ e.dst = b then e.queue else heldOn l a b := by
  unfold heldOn
  rw [find?_cons]
  by_cases h : e.src = a ∧ e.dst = b
  · simp [HoldEntry.on, h]
  · simp [HoldEntry.on, h]

variable {l : List HoldEntry}

theorem heldOn_eq_nil {a b : SlotId} (h : ∀ e ∈ l, ¬ (e.src = a ∧ e.dst = b)) : heldOn l a b = [] := by
  have hnone : l.find? (HoldEntry.on a b) = none := by
    rw [find?_eq_none]
    intro e he hon
    exact h e he (of_decide_eq_true hon)
  rw [heldOn, hnone]
  rfl

/-! ### Holding a message -/

open Ipc (holdEnqueue)

theorem holdEnqueue_eq_none {src dst : SlotId} {m : IpcMessage} (h : holdEnqueue src dst m l = none) :
    ∀ e ∈ l, ¬ (e.src = src ∧ e.dst = dst) := by
  induction l with
  | nil => simp
  | cons e l ih =>
    rw [holdEnqueue] at h
    split_ifs at h with hon
    intro e' he'
    rcases mem_cons.mp he' with rfl | htail
    · exact hon
    · exact ih (Option.map_eq_none_iff.mp h) e' htail

/-- The entries stay, and one of them has a message more. -/
structure Enqueued (src dst : SlotId) (m : IpcMessage) (l l' : List HoldEntry) : Prop where
  keys : l'.map HoldEntry.key = l.map HoldEntry.key
  heldOn : ∀ a b, heldOn l' a b = heldOn l a b ++ if src = a ∧ dst = b then [m] else []
  others : ∀ e ∈ l', e.dst ≠ dst → e ∈ l

theorem holdEnqueue_eq_some {src dst : SlotId} {m : IpcMessage} {l' : List HoldEntry}
    (h : holdEnqueue src dst m l = some l') : Enqueued src dst m l l' := by
  induction l generalizing l' with
  | nil => cases h
  | cons e l ih =>
    rw [holdEnqueue] at h
    split_ifs at h with hon
    · obtain rfl := Option.some.inj h
      refine ⟨rfl, fun a b => ?_, fun e' he' hne => ?_⟩
      · rw [heldOn_cons, heldOn_cons, ← hon.1, ← hon.2]
        split_ifs
        · rfl
        · rw [append_nil]
      · rcases mem_cons.mp he' with rfl | htail
        · exact absurd hon.2 hne
        · exact mem_cons_of_mem _ htail
    · obtain ⟨l'', hl'', rfl⟩ := Option.map_eq_some_iff.mp h
      obtain ⟨hkeys, hheld, hothers⟩ := ih hl''
      refine ⟨?_, fun a b => ?_, fun e' he' hne => ?_⟩
      · rw [map_cons, map_cons, hkeys]
      · rw [heldOn_cons, heldOn_cons, hheld a b]
        by_cases he : e.src = a ∧ e.dst = b
        · have hne : ¬ (src = a ∧ dst = b) :=
            fun heq => hon ⟨he.1.trans heq.1.symm, he.2.trans heq.2.symm⟩
          rw [if_pos he, if_pos he, if_neg hne, append_nil]
        · rw [if_neg he, if_neg he]
      · rcases mem_cons.mp he' with rfl | htail
        · exact mem_cons_self
        · exact mem_cons_of_mem _ (hothers e' htail hne)

/-! ### Seeking the next entry -/

/-- The pointer of a flush is at the end of a list: it is `&g_holds` and the list is empty, or it is
in the last entry. -/
def PpAt (pp : Option ℕ) (l : List HoldEntry) : Prop := l.getLast?.map (·.id) = pp

variable {pp : Option ℕ}

theorem splitAtPp_eq_some {before after : List HoldEntry}
    (h : Ipc.splitAtPp pp l = some (before, after)) : l = before ++ after ∧ PpAt pp before := by
  induction l generalizing before with
  | nil =>
    cases pp with
    | none =>
      obtain ⟨rfl, rfl⟩ := Prod.mk.inj (Option.some.inj h)
      exact ⟨rfl, rfl⟩
    | some i => cases h
  | cons e l ih =>
    cases pp with
    | none =>
      obtain ⟨rfl, rfl⟩ := Prod.mk.inj (Option.some.inj h)
      exact ⟨rfl, rfl⟩
    | some i =>
      rw [Ipc.splitAtPp] at h
      split_ifs at h with hid
      · obtain ⟨rfl, rfl⟩ := Prod.mk.inj (Option.some.inj h)
        exact ⟨rfl, congrArg some hid⟩
      · obtain ⟨⟨before', after'⟩, hsplit, heq⟩ := Option.map_eq_some_iff.mp h
        obtain ⟨rfl, rfl⟩ := Prod.mk.inj heq
        obtain ⟨rfl, hpp⟩ := ih hsplit
        refine ⟨rfl, ?_⟩
        cases before' with
        | nil => cases hpp
        | cons x before' => exact hpp

theorem splitAtPp_eq_none (h : Ipc.splitAtPp pp l = none) : ∃ i, pp = some i ∧ ∀ e ∈ l, e.id ≠ i := by
  cases pp with
  | none => cases l <;> cases h
  | some i =>
    refine ⟨i, rfl, ?_⟩
    induction l with
    | nil => simp
    | cons e l ih =>
      rw [Ipc.splitAtPp] at h
      split_ifs at h with hid
      intro e' he'
      rcases mem_cons.mp he' with rfl | htail
      · exact hid
      · exact ih (Option.map_eq_none_iff.mp h) e' htail

theorem PpAt.append {before passed : List HoldEntry} (h : PpAt pp before) :
    PpAt ((passed.getLast?.map (·.id)).or pp) (before ++ passed) := by
  rw [PpAt, getLast?_append]
  cases hlast : passed.getLast? with
  | none => exact h
  | some e => rfl

/-- **What the head of the loop comes to.** -/
inductive Sought (s : Ipc) : Ipc × Bool → Prop
  | idle (hflushes : s.flushes = []) : Sought s (s, false)
  /-- The entry the pointer was in is gone. -/
  | fault {f : Flush} {outer : List Flush} {i : ℕ} (hflushes : s.flushes = f :: outer)
      (hpp : f.pp = some i) (hgone : ∀ e ∈ s.holds, e.id ≠ i) :
      Sought s ({ s with fault := true }, false)
  /-- No entry of the slot follows. -/
  | through {f : Flush} {outer : List Flush} {pp : Option ℕ} {before passed : List HoldEntry}
      (hflushes : s.flushes = f :: outer) (hholds : s.holds = before ++ passed)
      (hbefore : PpAt f.pp before) (hpp : PpAt pp (before ++ passed))
      (hpassed : ∀ e ∈ passed, e.dst ≠ f.dst) :
      Sought s ({ s with flushes := { f with pp } :: outer }, false)
  | found {f : Flush} {outer : List Flush} {pp : Option ℕ} {before passed rest : List HoldEntry}
      {e : HoldEntry} (hflushes : s.flushes = f :: outer)
      (hholds : s.holds = before ++ passed ++ e :: rest) (hbefore : PpAt f.pp before)
      (hpp : PpAt pp (before ++ passed)) (hpassed : ∀ e ∈ passed, e.dst ≠ f.dst)
      (hdst : e.dst = f.dst) :
      Sought s ({ s with
        holds := before ++ passed ++ rest, flushes := { f with pp, cur := some e } :: outer }, true)

theorem flushSeek_sought (s : Ipc) : Sought s s.flushSeek := by
  rw [Ipc.flushSeek]
  split
  next hflushes => exact .idle hflushes
  next f outer hflushes =>
    split
    next hsplit =>
      obtain ⟨i, hpp, hgone⟩ := splitAtPp_eq_none hsplit
      exact .fault hflushes hpp hgone
    next before after hsplit =>
      obtain ⟨hholds, hbefore⟩ := splitAtPp_eq_some hsplit
      have hafter := takeWhile_append_dropWhile (p := fun e : HoldEntry => decide (e.dst ≠ f.dst))
        (l := after)
      have hpassed : ∀ e ∈ after.takeWhile fun e => decide (e.dst ≠ f.dst), e.dst ≠ f.dst :=
        fun e he => of_decide_eq_true
          (mem_takeWhile_imp (p := fun e : HoldEntry => decide (e.dst ≠ f.dst)) he)
      dsimp only
      split
      next hrest =>
        rw [hrest, append_nil] at hafter
        exact .through hflushes (by rw [hafter, hholds]) hbefore hbefore.append hpassed
      next e rest hrest =>
        have hdst : e.dst = f.dst := by
          have := head?_dropWhile_not (fun e : HoldEntry => decide (e.dst ≠ f.dst)) after
          rw [hrest] at this
          simpa using this
        rw [hrest] at hafter
        exact .found hflushes (by rw [append_assoc, hafter, hholds]) hbefore hbefore.append hpassed hdst

/-- **What taking a message from the entry comes to.** -/
inductive HoldDequeued (s : Ipc) : Ipc × Option IpcMessage → Prop
  | empty (hempty : ∀ f outer e, s.flushes = f :: outer → f.cur = some e → e.queue = []) :
      HoldDequeued s (s, none)
  | taken {f : Flush} {outer : List Flush} {e : HoldEntry} {m : IpcMessage} {queue : List IpcMessage}
      (hflushes : s.flushes = f :: outer) (hcur : f.cur = some e) (hqueue : e.queue = m :: queue) :
      HoldDequeued s
        ({ s with flushes := { f with cur := some { e with queue } } :: outer }.tell
          (.resent e.src e.dst m), some m)

theorem holdDequeue_dequeued (s : Ipc) : HoldDequeued s s.holdDequeue := by
  rw [Ipc.holdDequeue]
  split
  next hflushes => exact .empty fun f outer e heq => by rw [hflushes] at heq; cases heq
  next f outer hflushes =>
    split
    next id src dst m queue hcur => exact .taken hflushes hcur rfl
    next hnone =>
      refine .empty fun f' outer' e heq hcur => ?_
      rw [hflushes] at heq
      obtain ⟨rfl, rfl⟩ := List.cons.inj heq
      obtain ⟨id, src, dst, queue⟩ := e
      cases queue with
      | nil => rfl
      | cons m queue => exact absurd hcur (hnone id src dst m queue)

end Nonux.Framework
