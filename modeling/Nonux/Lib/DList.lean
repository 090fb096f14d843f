import Mathlib.Tactic

/-!
# Doubly linked lists of nodes

A node has a `next` and a `prev`. A list is a head whose nodes lead from it and back to it, so that
the node after the last is the head itself. Nodes are linked in and taken out by four assignments
(`addAfter`, `remove`), which change the neighbours as well.

* `Ring m h l`: the nodes of the list of `h` are `l`, in order.
* `Rings m head list`: several lists with no node in common. Linking in a node that is on none of
  them, and taking out one that is, changes one list and leaves the others as they are
  (`Rings.addTail`, `Rings.remove`).
-/

namespace Nonux.Lib

open Function List

structure Links (N : Type) where
  next : N → N
  prev : N → N

namespace Links

variable {N : Type} [DecidableEq N]

def setNext (m : Links N) (a b : N) : Links N := { m with next := update m.next a b }

def setPrev (m : Links N) (a b : N) : Links N := { m with prev := update m.prev a b }

/-- Link a node, or the head of an empty list, to itself. -/
def init (m : Links N) (h : N) : Links N := (m.setNext h h).setPrev h h

/-- Whether the list of a head is empty. -/
def isEmpty (m : Links N) (h : N) : Bool := decide (m.next h = h)

/-- Link a node in after another. -/
def addAfter (m : Links N) (pos node : N) : Links N :=
  let m := m.setPrev node pos
  let m := m.setNext node (m.next pos)
  let m := m.setPrev (m.next pos) node
  m.setNext pos node

/-- Link a node in before the head. -/
def addTail (m : Links N) (h node : N) : Links N := m.addAfter (m.prev h) node

/-- Take a node out of the list it is on, and link it to itself. -/
def remove (m : Links N) (node : N) : Links N :=
  let m := m.setNext (m.prev node) (m.next node)
  let m := m.setPrev (m.next node) (m.prev node)
  let m := m.setNext node node
  m.setPrev node node

/-- The nodes from `n` up to the head, so many at most. -/
def walkFrom (m : Links N) (h : N) : ℕ → N → List N
  | 0, _ => []
  | fuel + 1, n => if n = h then [] else n :: walkFrom m h fuel (m.next n)

/-- The nodes of a list, so many at most. -/
def walk (m : Links N) (fuel : ℕ) (h : N) : List N := m.walkFrom h fuel (m.next h)

/-! ### Segments -/

/-- The nodes `l` lead from `a` to `b`, and back. -/
def Seg (m : Links N) : N → List N → N → Prop
  | a, [], b => m.next a = b ∧ m.prev b = a
  | a, x :: l, b => (m.next a = x ∧ m.prev x = a) ∧ Seg m x l b

variable {m m' : Links N} {a b c x : N} {l l' : List N}

section Seg

omit [DecidableEq N]

theorem seg_append : m.Seg a (l ++ x :: l') b ↔ m.Seg a l x ∧ m.Seg x l' b := by
  induction l generalizing a with
  | nil => exact Iff.rfl
  | cons y l ih => rw [cons_append, Seg, ih, Seg, and_assoc, and_assoc, and_assoc]

theorem Seg.prev_mem (h : m.Seg a l b) : m.prev b ∈ a :: l := by
  induction l generalizing a with
  | nil => simp [h.2]
  | cons x l ih => exact mem_cons_of_mem _ (ih h.2)

theorem Seg.next_mem (h : m.Seg a l b) : m.next a ∈ l ++ [b] := by
  cases l with
  | nil => simp [h.1]
  | cons x l => simp [h.1.1]

theorem Seg.next_eq (h : m.Seg a l b) : m.next a = l.headD b := by
  cases l with
  | nil => exact h.1
  | cons x l => exact h.1.1

theorem Seg.next_prev (h : m.Seg a l b) : m.next (m.prev b) = b := by
  induction l generalizing a with
  | nil => rw [h.2, h.1]
  | cons x l ih => exact ih h.2

/-- A segment depends on the pointers between its nodes. -/
theorem Seg.congr (h : m.Seg a l b) (hnext : ∀ y ∈ a :: l, m'.next y = m.next y)
    (hprev : ∀ y ∈ l ++ [b], m'.prev y = m.prev y) : m'.Seg a l b := by
  induction l generalizing a with
  | nil => exact ⟨(hnext a (by simp)).trans h.1, (hprev b (by simp)).trans h.2⟩
  | cons x l ih =>
    refine ⟨⟨(hnext a (by simp)).trans h.1.1, (hprev x (by simp)).trans h.1.2⟩, ih h.2
      (fun y hy => ?_) fun y hy => ?_⟩
    · exact hnext y (mem_cons_of_mem _ hy)
    · exact hprev y (mem_cons_of_mem _ hy)

/-- Lead a segment to another end. -/
theorem Seg.redirect (h : m.Seg a l b) (hnodup : (a :: l).Nodup)
    (hnext : ∀ y ∈ a :: l, y ≠ m.prev b → m'.next y = m.next y) (hprev : ∀ y ∈ l, m'.prev y = m.prev y)
    (hto : m'.next (m.prev b) = c) (hfrom : m'.prev c = m.prev b) : m'.Seg a l c := by
  induction l generalizing a with
  | nil =>
    rw [h.2] at hto hfrom
    exact ⟨hto, hfrom⟩
  | cons x l ih =>
    have hne : a ≠ m.prev b := fun heq => (nodup_cons.mp hnodup).1 (heq ▸ h.2.prev_mem)
    refine ⟨⟨(hnext a (by simp) hne).trans h.1.1, (hprev x (by simp)).trans h.1.2⟩, ?_⟩
    exact ih h.2 hnodup.of_cons (fun y hy => hnext y (mem_cons_of_mem _ hy)) fun y hy =>
      hprev y (mem_cons_of_mem _ hy)

end Seg

/-! ### Lists -/

/-- The nodes of the list of `h` are `l`. -/
structure Ring (m : Links N) (h : N) (l : List N) : Prop where
  nodup : (h :: l).Nodup
  seg : m.Seg h l h

variable {h h' : N}

theorem Seg.walkFrom_eq (hseg : m.Seg a l h) (hh : h ∉ l) {fuel : ℕ} (hfuel : l.length < fuel) :
    m.walkFrom h fuel (m.next a) = l := by
  induction l generalizing a fuel with
  | nil =>
    obtain ⟨fuel, rfl⟩ := Nat.exists_eq_succ_of_ne_zero (Nat.ne_of_gt hfuel)
    rw [hseg.1, walkFrom, if_pos rfl]
  | cons x l ih =>
    obtain ⟨fuel, rfl⟩ := Nat.exists_eq_succ_of_ne_zero (Nat.ne_of_gt (Nat.zero_lt_of_lt hfuel))
    rw [hseg.1.1, walkFrom, if_neg fun hx => hh (by simp [hx]),
      ih hseg.2 (fun hx => hh (mem_cons_of_mem _ hx)) (by simpa using hfuel)]

/-- The nodes of a list are found one after the other. -/
theorem Ring.walk_eq (hr : m.Ring h l) {fuel : ℕ} (hfuel : l.length < fuel) : m.walk fuel h = l :=
  hr.seg.walkFrom_eq (nodup_cons.mp hr.nodup).1 hfuel

theorem Ring.isEmpty_iff (hr : m.Ring h l) : m.isEmpty h = true ↔ l = [] := by
  rw [isEmpty, decide_eq_true_eq]
  constructor
  · intro hempty
    cases l with
    | nil => rfl
    | cons x l => exact absurd (hr.seg.1.1.symm.trans hempty) (by rintro rfl; simpa using hr.nodup)
  · rintro rfl
    exact hr.seg.1

/-! ### Linking in and taking out -/

theorem addAfter_next (m : Links N) (pos node : N) :
    (m.addAfter pos node).next = update (update m.next node (m.next pos)) pos node := rfl

theorem addAfter_prev (m : Links N) {pos node : N} (hne : node ≠ pos) :
    (m.addAfter pos node).prev = update (update m.prev node pos) (m.next pos) node := by
  simp only [addAfter, setNext, setPrev, update_of_ne (Ne.symm hne)]

theorem remove_next (m : Links N) (node : N) :
    (m.remove node).next = update (update m.next (m.prev node) (m.next node)) node node := rfl

theorem remove_prev (m : Links N) {node : N} (hne : m.prev node ≠ node) :
    (m.remove node).prev = update (update m.prev (m.next node) (m.prev node)) node node := by
  simp only [remove, setNext, setPrev, update_of_ne (Ne.symm hne)]

/-- A node that is linked in comes last. -/
theorem Ring.addTail (hr : m.Ring h l) (hx : x ∉ h :: l) : (m.addTail h x).Ring h (l ++ [x]) := by
  have hpos := hr.seg.prev_mem
  have hnp : x ≠ m.prev h := fun heq => hx (heq ▸ hpos)
  have hxh : x ≠ h := fun heq => hx (by simp [heq])
  have hnext : (m.addTail h x).next = update (update m.next x h) (m.prev h) x := by
    rw [Links.addTail, addAfter_next, hr.seg.next_prev]
  have hprev : (m.addTail h x).prev = update (update m.prev x (m.prev h)) h x := by
    rw [Links.addTail, addAfter_prev m hnp, hr.seg.next_prev]
  refine ⟨?_, seg_append.mpr ⟨hr.seg.redirect hr.nodup (fun y hy hne => ?_) (fun y hy => ?_) ?_ ?_,
    ?_, ?_⟩⟩
  · rw [← cons_append]
    exact nodup_append.mpr ⟨hr.nodup, nodup_singleton x, fun y hy z hz hyz =>
      hx (mem_singleton.mp hz ▸ hyz ▸ hy)⟩
  · have hyx : y ≠ x := fun heq => hx (heq ▸ hy)
    rw [hnext, update_of_ne hne, update_of_ne hyx]
  · have hyx : y ≠ x := fun heq => hx (heq ▸ mem_cons_of_mem _ hy)
    have hyh : y ≠ h := fun heq => (nodup_cons.mp hr.nodup).1 (heq ▸ hy)
    rw [hprev, update_of_ne hyh, update_of_ne hyx]
  · rw [hnext, update_self]
  · rw [hprev, update_of_ne hxh, update_self]
  · rw [hnext, update_of_ne hnp, update_self]
  · rw [hprev, update_self]

/-- Another list does not change when a node is linked in. -/
theorem Ring.addTail_of_disjoint (hr : m.Ring h l) (hr' : m.Ring h' l') (hx : x ∉ h :: l)
    (hx' : x ∉ h' :: l') (hdisj : ∀ y ∈ h :: l, y ∉ h' :: l') : (m.addTail h x).Ring h' l' := by
  have hnp : x ≠ m.prev h := fun heq => hx (heq ▸ hr.seg.prev_mem)
  have hout : ∀ y ∈ h' :: l', y ≠ x ∧ y ≠ m.prev h ∧ y ≠ h := fun y hy =>
    ⟨fun heq => hx' (heq ▸ hy), fun heq => hdisj _ hr.seg.prev_mem (heq ▸ hy),
      fun heq => hdisj h (by simp) (heq ▸ hy)⟩
  refine ⟨hr'.nodup, hr'.seg.congr (fun y hy => ?_) fun y hy => ?_⟩
  · rw [Links.addTail, addAfter_next, update_of_ne (hout y hy).2.1, update_of_ne (hout y hy).1]
  · have hy' : y ∈ h' :: l' := by simpa [or_comm] using hy
    rw [Links.addTail, addAfter_prev m hnp, hr.seg.next_prev, update_of_ne (hout y hy').2.2,
      update_of_ne (hout y hy').1]

/-- A node that is taken out leaves the others in their order. -/
theorem Ring.remove (hr : m.Ring h (l ++ x :: l')) : (m.remove x).Ring h (l ++ l') := by
  obtain ⟨hfst, hsnd⟩ := seg_append.mp hr.seg
  have hnodup := hr.nodup
  rw [← cons_append] at hnodup
  obtain ⟨hl, hxl', hdisj⟩ := nodup_append.mp hnodup
  have hprevx := hfst.prev_mem
  have hnextx := hsnd.next_mem
  have hpx : m.prev x ≠ x := fun heq => hdisj x (heq ▸ hprevx) x (by simp) rfl
  have hmem : ∀ y ∈ h :: l, y ≠ x := fun y hy => hdisj y hy x (by simp)
  have hmem' : ∀ y ∈ l', y ≠ x := fun y hy heq => (nodup_cons.mp hxl').1 (heq ▸ hy)
  have hxh : h ≠ x := hmem h (by simp)
  refine ⟨?_, ?_⟩
  · exact hr.nodup.sublist (((sublist_cons_self x l').append_left l).cons_cons h)
  -- The part before the node leads to what comes after it, be it a node or the head.
  have hto : m.next x ≠ x := by
    rcases mem_append.mp hnextx with hy | hy
    · exact hmem' _ hy
    · exact mem_singleton.mp hy ▸ hxh
  have hbefore : (m.remove x).Seg h l (m.next x) := by
    refine hfst.redirect hl (fun y hy hne => ?_) (fun y hy => ?_) ?_ ?_
    · rw [remove_next, update_of_ne (hmem y hy), update_of_ne hne]
    · have hy' : y ∈ h :: l := mem_cons_of_mem _ hy
      have hyn : y ≠ m.next x := by
        rintro rfl
        rcases mem_append.mp hnextx with hmem | hmem
        · exact hdisj _ hy' _ (mem_cons_of_mem _ hmem) rfl
        · exact (nodup_cons.mp hl).1 (mem_singleton.mp hmem ▸ hy)
      rw [remove_prev m hpx, update_of_ne (hmem y hy'), update_of_ne hyn]
    · rw [remove_next, update_of_ne hpx, update_self]
    · rw [remove_prev m hpx, update_of_ne hto, update_self]
  cases l' with
  | nil =>
    rw [hsnd.1] at hbefore
    rwa [append_nil]
  | cons y l' =>
    rw [hsnd.1.1] at hbefore
    refine seg_append.mpr ⟨hbefore, hsnd.2.congr (fun z hz => ?_) fun z hz => ?_⟩
    · have hzp : z ≠ m.prev x := fun heq => hdisj _ hprevx z (mem_cons_of_mem _ hz) heq.symm
      rw [remove_next, update_of_ne (hmem' z hz), update_of_ne hzp]
    · have hzx : z ≠ x := by
        rcases mem_append.mp hz with hz | hz
        · exact hmem' z (mem_cons_of_mem _ hz)
        · exact mem_singleton.mp hz ▸ hxh
      have hzy : z ≠ y := by
        rintro rfl
        rcases mem_append.mp hz with hz | hz
        · exact (nodup_cons.mp hxl'.of_cons).1 hz
        · exact hdisj z (by simp [mem_singleton.mp hz]) z (by simp) rfl
      rw [remove_prev m hpx, hsnd.1.1, update_of_ne hzx, update_of_ne hzy]

/-- Another list does not change when a node is taken out. -/
theorem Ring.remove_of_disjoint (hr : m.Ring h (l ++ x :: l')) {k : List N} (hr' : m.Ring h' k)
    (hdisj : ∀ y ∈ h :: (l ++ x :: l'), y ∉ h' :: k) : (m.remove x).Ring h' k := by
  obtain ⟨hfst, hsnd⟩ := seg_append.mp hr.seg
  have hprevx : m.prev x ∈ h :: (l ++ x :: l') := by
    have := hfst.prev_mem
    simp only [mem_cons, mem_append] at this ⊢
    tauto
  have hnextx : m.next x ∈ h :: (l ++ x :: l') := by
    have := hsnd.next_mem
    simp only [mem_cons, mem_append, not_mem_nil, or_false] at this ⊢
    tauto
  have hnodup := hr.nodup
  rw [← cons_append] at hnodup
  have hpx : m.prev x ≠ x := fun heq => (nodup_append.mp hnodup).2.2 x (heq ▸ hfst.prev_mem) x
    (by simp) rfl
  have hout : ∀ y ∈ h' :: k, y ≠ x ∧ y ≠ m.prev x ∧ y ≠ m.next x := fun y hy =>
    ⟨fun heq => hdisj x (by simp) (heq ▸ hy), fun heq => hdisj _ hprevx (heq ▸ hy),
      fun heq => hdisj _ hnextx (heq ▸ hy)⟩
  refine ⟨hr'.nodup, hr'.seg.congr (fun y hy => ?_) fun y hy => ?_⟩
  · rw [remove_next, update_of_ne (hout y hy).1, update_of_ne (hout y hy).2.1]
  · have hy' : y ∈ h' :: k := by simpa [or_comm] using hy
    rw [remove_prev m hpx, update_of_ne (hout y hy').1, update_of_ne (hout y hy').2.2]

/-! ### Several lists -/

/-- The lists of several heads, with no node in common. -/
structure Rings {H : Type} (m : Links N) (head : H → N) (list : H → List N) : Prop where
  ring : ∀ h, m.Ring (head h) (list h)
  apart : ∀ {h h' : H} {x : N}, x ∈ list h → x ∈ list h' → h = h'
  heads : ∀ h h', head h ∉ list h'
  inj : Function.Injective head

namespace Rings

variable {H : Type} [DecidableEq H] {head : H → N} {list : H → List N} {h h' : H}

omit [DecidableEq N] [DecidableEq H] in
theorem disjoint (R : m.Rings head list) (hne : h ≠ h') :
    ∀ y ∈ head h :: list h, y ∉ head h' :: list h' := by
  intro y hy hy'
  rcases mem_cons.mp hy with rfl | hy
  · rcases mem_cons.mp hy' with heq | hy'
    · exact hne (R.inj heq)
    · exact R.heads h h' hy'
  · rcases mem_cons.mp hy' with rfl | hy'
    · exact R.heads h' h hy
    · exact hne (R.apart hy hy')

/-- The lists with a node at the end of one. -/
def added (list : H → List N) (h : H) (x : N) : H → List N :=
  fun k => if k = h then list k ++ [x] else list k

/-- The lists without a node. -/
def dropped (list : H → List N) (x : N) : H → List N := fun k => (list k).erase x

omit [DecidableEq N] in
theorem mem_added {x y : N} {k : H} : y ∈ added list h x k ↔ y ∈ list k ∨ y = x ∧ k = h := by
  unfold added
  split_ifs with hk
  · simp [hk]
  · simp [hk]

omit [DecidableEq H] in
theorem mem_dropped (R : m.Rings head list) {x y : N} {k : H} :
    y ∈ dropped list x k ↔ y ≠ x ∧ y ∈ list k :=
  (R.ring k).nodup.of_cons.mem_erase_iff

/-- Linking in a node that is on no list. -/
theorem addTail (R : m.Rings head list) (h : H) {x : N} (hx : ∀ h', x ∉ list h')
    (hhead : ∀ h', x ≠ head h') : (m.addTail (head h) x).Rings head (added list h x) := by
  have hout : ∀ h', x ∉ head h' :: list h' := fun h' hmem =>
    (mem_cons.mp hmem).elim (hhead h') (hx h')
  refine ⟨fun h' => ?_, fun {h₁ h₂ y} h1 h2 => ?_, fun h₁ h₂ h2 => ?_, R.inj⟩
  · unfold added
    split_ifs with heq
    · subst heq
      exact (R.ring h').addTail (hout h')
    · exact (R.ring h).addTail_of_disjoint (R.ring h') (hout h) (hout h') (R.disjoint (Ne.symm heq))
  · rcases mem_added.mp h1 with h1 | ⟨hy, heq⟩ <;> rcases mem_added.mp h2 with h2 | ⟨hy', heq'⟩
    · exact R.apart h1 h2
    · exact absurd (hy' ▸ h1) (hx h₁)
    · exact absurd (hy ▸ h2) (hx h₂)
    · exact heq.trans heq'.symm
  · rcases mem_added.mp h2 with h2 | ⟨hy, -⟩
    · exact R.heads _ _ h2
    · exact hhead h₁ hy.symm

omit [DecidableEq H] in
/-- A node that is on no list is made a list of its own. -/
theorem init (R : m.Rings head list) {x : N} (hx : ∀ h, x ∉ list h) (hhead : ∀ h, x ≠ head h) :
    (m.init x).Rings head list := by
  refine ⟨fun h => ⟨(R.ring h).nodup, (R.ring h).seg.congr (fun y hy => ?_) fun y hy => ?_⟩,
    R.apart, R.heads, R.inj⟩
  · refine update_of_ne ?_ ..
    rintro rfl
    exact (mem_cons.mp hy).elim (hhead h) (hx h)
  · refine update_of_ne ?_ ..
    rintro rfl
    exact (mem_append.mp hy).elim (hx h) fun hy => hhead h (mem_singleton.mp hy)

omit [DecidableEq H] in
/-- Taking out a node. -/
theorem remove (R : m.Rings head list) {h : H} {x : N} (hx : x ∈ list h) :
    (m.remove x).Rings head (dropped list x) := by
  obtain ⟨l, l', heq⟩ := append_of_mem hx
  have hring := R.ring h
  rw [heq] at hring
  have hxl : x ∉ l := fun hmem => (nodup_append.mp hring.nodup.of_cons).2.2 x hmem x (by simp) rfl
  refine ⟨fun h' => ?_, fun h1 h2 => R.apart (R.mem_dropped.mp h1).2 (R.mem_dropped.mp h2).2,
    fun h₁ h₂ h2 =>
    R.heads _ _ (R.mem_dropped.mp h2).2, R.inj⟩
  unfold dropped
  by_cases hh : h' = h
  · subst hh
    rw [heq, erase_append_right _ hxl, erase_cons_head]
    exact hring.remove
  · rw [erase_of_not_mem fun hmem => hh (R.apart hmem hx)]
    exact hring.remove_of_disjoint (R.ring h') (heq ▸ R.disjoint (Ne.symm hh))

end Rings

end Links

end Nonux.Lib
