import Nonux.Framework.MessageFate

/-!
# No message is lost or doubled

Whenever no call is in progress, a message that was ever sent is in one place: in the inbox of a
slot, on a hold queue, with the handler it was delivered to, dropped by a hook, with nobody to
handle it, or refused. Refused it can be at once, when its sender is told, but also later, when a
flush sends it again and the connection is gone: then nobody is told (`held_message_refused`).
-/

namespace Nonux.Framework

open Nonux.Lib CallSys List

/-- Where a message is, or what became of it. -/
inductive Fate where
  | inbox (slot : SlotId) (m : IpcMessage)
  | held (src dst : SlotId) (m : IpcMessage)
  | delivered (dst : SlotId) (c : CompId) (m : IpcMessage)
  | dropped (m : IpcMessage)
  | unhandled (dst : SlotId) (m : IpcMessage)
  | refused (m : IpcMessage)
  deriving DecidableEq, Repr

/-- The message it is about. -/
def Fate.id : Fate → ℕ
  | .inbox _ m => m.id
  | .held _ _ m => m.id
  | .delivered _ _ m => m.id
  | .dropped m => m.id
  | .unhandled _ m => m.id
  | .refused m => m.id

/-- That is where the message is, exactly once. -/
def Ipc.Has (s : Ipc) : Fate → Prop
  | .inbox slot m => (s.inboxOf slot).count m = 1
  | .held src dst m => s.waiting.count (src, dst, m) = 1
  | .delivered dst c m => s.log.count (.delivered dst c m) = 1
  | .dropped m => s.log.count (.dropped m) = 1
  | .unhandled dst m => s.log.count (.unhandled dst m) = 1
  | .refused m => s.log.count (.refused m) = 1

/-- The last event about a message that is not in hand says which. -/
def Fate.ofEvent : IpcEvent → Option Fate
  | .queued _ dst m => some (.inbox dst m)
  | .held src dst m => some (.held src dst m)
  | .delivered dst c m => some (.delivered dst c m)
  | .dropped m => some (.dropped m)
  | .unhandled dst m => some (.unhandled dst m)
  | .refused m => some (.refused m)
  | _ => none

theorem Fate.ofEvent_eq_some {ev : IpcEvent} (h : ev.onQueue = true ∨ ev.final = true) {id : ℕ}
    (habout : ev.about = some id) : ∃ fate, Fate.ofEvent ev = some fate ∧ fate.id = id := by
  cases ev <;> first | exact ⟨_, rfl, Option.some.inj habout⟩ | simp [IpcEvent.onQueue,
    IpcEvent.final] at h

section Places

variable {s : Ipc}

theorem Ipc.Accounted.count_final (h : s.Accounted) {ev : IpcEvent} {id : ℕ}
    (habout : ev.about = some id)
    (hfinal : ev.final = true) : s.log.count ev = 1 ↔ s.last id = some ev := by
  refine ⟨fun hone => (h.filter_final (count_pos_iff.mp (hone ▸ Nat.one_pos)) habout hfinal).2,
    fun hlast => ?_⟩
  have hcount : (s.log.filter fun ev => ev.final && decide (ev.about = some id)).count ev = s.log.count ev :=
    count_filter (by simp [hfinal, habout])
  rw [← hcount, (h.filter_final (mem_of_lastAbout hlast) habout hfinal).1, count_singleton_self]

theorem count_eq_one_iff_mem {α : Type} [BEq α] [LawfulBEq α] {l : List α} (h : l.Nodup) {a : α} : l.count a = 1 ↔ a ∈ l :=
  ⟨fun hone => count_pos_iff.mp (hone ▸ Nat.one_pos), count_eq_one_of_mem h⟩

/-- **The last event about a message says where it is.** -/
theorem Ipc.Accounted.has_iff (h : s.Accounted) (hhosted : s.hosted = true) (fate : Fate) :
    s.Has fate ↔ ∃ ev, s.last fate.id = some ev ∧ Fate.ofEvent ev = some fate := by
  have hgone : ∀ ev : IpcEvent, ev.about = some fate.id → ev.final = true →
      (∀ ev', Fate.ofEvent ev' = some fate ↔ ev' = ev) →
      (s.log.count ev = 1 ↔ ∃ ev', s.last fate.id = some ev' ∧ Fate.ofEvent ev' = some fate) := by
    intro ev habout hfinal hof
    rw [h.count_final habout hfinal]
    simp only [hof, exists_eq_right]
  cases fate with
  | inbox slot m =>
    have hnodup : (s.inboxOf slot).Nodup := .of_map _ (h.inbox_nodup slot)
    rw [Ipc.Has, count_eq_one_iff_mem hnodup, h.inbox slot m]
    constructor
    · rintro ⟨-, src, hlast⟩
      exact ⟨_, hlast, rfl⟩
    · rintro ⟨ev, hlast, hev⟩
      refine ⟨hhosted, ?_⟩
      cases ev <;> first | cases hev; exact ⟨_, hlast⟩ | cases hev
  | held src dst m =>
    have hnodup : s.waiting.Nodup := .of_map _ h.waiting_nodup
    rw [Ipc.Has, count_eq_one_iff_mem hnodup, h.waiting src dst m]
    constructor
    · exact fun hlast => ⟨_, hlast, rfl⟩
    · rintro ⟨ev, hlast, hev⟩
      cases ev <;> first | cases hev; exact hlast | cases hev
  | delivered dst c m => exact hgone (.delivered dst c m) rfl rfl fun ev => by cases ev <;> simp [Fate.ofEvent]
  | dropped m => exact hgone (.dropped m) rfl rfl fun ev => by cases ev <;> simp [Fate.ofEvent]
  | unhandled dst m => exact hgone (.unhandled dst m) rfl rfl fun ev => by cases ev <;> simp [Fate.ofEvent]
  | refused m => exact hgone (.refused m) rfl rfl fun ev => by cases ev <;> simp [Fate.ofEvent]

/-- A message that is not in hand is in one place. -/
theorem Ipc.Accounted.existsUnique_fate (h : s.Accounted) (hhosted : s.hosted = true) {id : ℕ}
    (hid : id < s.nextMessage) (hhand : ¬ s.InHand id) : ∃! fate : Fate, fate.id = id ∧ s.Has fate := by
  cases hlast : s.last id with
  | none => exact absurd ⟨⟨hid, fun ev hev => by simp [hlast] at hev⟩,
      fun ev hev => by simp [hlast] at hev⟩ hhand
  | some ev =>
    have hplaced : ev.onQueue = true ∨ ev.final = true := by
      by_contra hno
      rw [not_or, Bool.not_eq_true, Bool.not_eq_true] at hno
      exact hhand (.of_last _ hlast hid hno.1 hno.2)
    obtain ⟨fate, hfate, hidfate⟩ := Fate.ofEvent_eq_some hplaced (about_of_lastAbout hlast)
    refine ⟨fate, ⟨hidfate, (h.has_iff hhosted fate).mpr ⟨ev, hidfate ▸ hlast, hfate⟩⟩, ?_⟩
    rintro fate' ⟨rfl, hhas⟩
    obtain ⟨ev', hlast', hfate'⟩ := (h.has_iff hhosted fate').mp hhas
    rw [hlast] at hlast'
    obtain rfl := Option.some.inj hlast'
    exact Option.some.inj (hfate'.symm.trans hfate)

/-- A message whose sender was told that it was accepted is refused only when a flush sends it
again. -/
theorem Ipc.Accounted.resent_of_refused (h : s.Accounted) (ht : s.Truthful) {m m' : IpcMessage}
    (hhonest : s.Honest m.id) (htold : .told m nxOk ∈ s.log) (hid : m'.id = m.id)
    (hrefused : .refused m' ∈ s.log) : s.Resent m.id := by
  obtain ⟨ev, hmem, habout, haccepts⟩ := ht m htold
  refine hhonest m' hid hrefused ⟨ev, hmem, habout, ?_⟩
  by_contra hon
  -- otherwise a handler got it, and then it is not refused
  have hfinal : ev.final = true := by cases ev <;> first | rfl | exact absurd rfl hon | cases haccepts
  have hlast := (h.filter_final hrefused (congrArg some hid) rfl).2
  rw [(h.filter_final hmem habout hfinal).2] at hlast
  cases hlast
  cases haccepts

end Places

/-! ### Whole runs -/

/-- **Whenever no call is in progress, every message is in one place**: in one inbox or on one hold
queue, once; delivered to one handler, once; dropped by a hook; left by a slot without a handler; or
refused by the router. What was refused although its sender had been told that it was accepted, a
flush had taken from its hold queue to send it again. -/
theorem message_in_one_place {α : Type} {q : IpcM α} (hq : Prog.All ipc.Exported q)
    {slot : SlotId → Slot} {comp : CompId → Component} {tr : ipc.Trace} {s : Ipc} {a : α}
    (hrun : Runs ipc (fun _ _ => True) true q (bootIpc true slot comp) tr s a) {id : ℕ}
    (hid : id < s.nextMessage) : (∃! fate : Fate, fate.id = id ∧ s.Has fate) ∧
      ∀ m m', m.id = id → m'.id = id → .told m nxOk ∈ s.log → s.Has (.refused m') → s.Resent id := by
  obtain ⟨hkept, -⟩ := hrun.sound fates_kept (fates_kept.wp_exported hq _)
    (accounted_boot true slot comp)
  have hhosted : s.hosted = true := runs_hosted hrun
  refine ⟨hkept.accounted.existsUnique_fate hhosted hid fun hhand => ?_,
    fun m m' hm hm' htold hrefused => ?_⟩
  · exact absurd (hkept.hands id (Set.notMem_empty id) hhand).1.1 (Nat.not_lt_zero id)
  · subst hm
    -- nothing has been logged at boot
    have htruthful : s.Truthful := hkept.truthful fun _ hm => by cases hm
    have hhonest : s.Honest m.id := hkept.honest _ (Set.notMem_empty _) fun _ _ hm => by cases hm
    have hmem : .refused m' ∈ s.log := count_pos_iff.mp (hrefused.symm ▸ Nat.one_pos)
    exact hkept.accounted.resent_of_refused htruthful hhonest htold hm' hmem

/-- A message waits in the inbox of a slot, and another one for a slot that is paused. -/
def twoWaiting : List IpcCall :=
  plugIn 1 7 ++ plugIn 2 8 ++ [connect 1 2 .async .queue, .send (some 1) (some 2) [],
    .fw (.verb .pause (some 8)), .send (some 1) (some 2) []]

theorem message_in_one_place_twoWaiting :
    let s := evalState quiet 200 (makeCalls twoWaiting ()) namedBoot
    s.nextMessage = 2 ∧ ∀ id < 2, ∃! fate : Fate, fate.id = id ∧ s.Has fate := by
  obtain ⟨tr, hrun⟩ : ∃ tr, Runs ipc (fun _ _ => True) true (makeCalls twoWaiting ()) namedBoot tr
    (evalState quiet 200 (makeCalls twoWaiting ()) namedBoot) () := runs_driver 200 (by decide +kernel)
  have hnext : (evalState quiet 200 (makeCalls twoWaiting ()) namedBoot).nextMessage = 2 := by
    decide +kernel
  exact ⟨hnext, fun id hid => (message_in_one_place (makeCalls_exported _ _) hrun (hnext ▸ hid)).1⟩

/-- A message is held for a slot that is paused; its connection goes, and the slot is resumed. -/
def heldThenUnplugged : IpcM ℤ := do
  makeCalls (plugIn 1 7 ++ plugIn 2 8 ++ [connect 1 2 .async .queue, .fw (.verb .pause (some 8))]) ()
  let rc : ℤ ← IpcM.proc (.api (.send (some 1) (some 2) []))
  makeCalls [.fw (.reg (.connectionUnregister (some 0))), .fw (.verb .resume (some 8))] rc

theorem heldThenUnplugged_exported : Prog.All ipc.Exported heldThenUnplugged :=
  Prog.all_bind (makeCalls_exported _ _) fun _ =>
    Prog.all_op ⟨_, rfl⟩ fun _ => makeCalls_exported _ _

/-- **A message that was accepted is refused when it is sent again**: it is in no inbox and on no
hold queue, no handler got it, and no hook dropped it. -/
theorem held_message_refused :
    ∃ tr s, Runs ipc (fun _ _ => True) true heldThenUnplugged namedBoot tr s nxOk ∧ s.nextMessage = 1 ∧
      (∀ slot, s.inboxOf slot = []) ∧ s.waiting = [] ∧ (∀ dst c m, .delivered dst c m ∉ s.log) ∧
      (∀ m, .dropped m ∉ s.log) := by
  obtain ⟨tr, hrun⟩ : ∃ tr, Runs ipc (fun _ _ => True) true heldThenUnplugged namedBoot tr
    (evalState quiet 200 heldThenUnplugged namedBoot) nxOk := runs_driver 200 (by decide +kernel)
  have hlog : (evalState quiet 200 heldThenUnplugged namedBoot).log =
      [.linked 1 2, .held 1 2 ⟨0, some 1, some 2, []⟩, .told ⟨0, some 1, some 2, []⟩ nxOk,
        .resent 1 2 ⟨0, some 1, some 2, []⟩, .refused ⟨0, some 1, some 2, []⟩] := by decide +kernel
  obtain ⟨hkept, -⟩ := hrun.sound fates_kept (fates_kept.wp_exported heldThenUnplugged_exported _)
    (accounted_boot true _ _)
  refine ⟨tr, _, hrun,
    by decide +kernel, fun slot => ?_, by decide +kernel, fun dst c m => ?_, fun m => ?_⟩
  · refine eq_nil_iff_forall_not_mem.mpr fun m hm => ?_
    obtain ⟨-, src, hlast⟩ := (hkept.accounted.inbox slot m).mp hm
    have hmem := mem_of_lastAbout hlast
    rw [hlog] at hmem
    simp at hmem
  · simp [hlog]
  · simp [hlog]

end Nonux.Framework
