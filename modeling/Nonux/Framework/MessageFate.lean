import Nonux.Lib.Ledger
import Nonux.Framework.Routing

/-!
# Where messages are

The log says what became of each message, and the last entry about a message says where it is now:
in an inbox, on a hold queue, in the hands of a call that is running, or gone. `Accounted` is the
invariant that the queues agree with that.

Code that runs in a callback can move the messages that are on queues, and make new ones. It cannot
touch a message that another call has in hand, or one that is gone, and it leaves none in hand when
it returns (`Kept`). That is the contract of every function of the router (`fates_kept`): whoever
takes a message in hand puts it on a queue, hands it to a handler, or is done with it.
-/

namespace Nonux.Framework

open Nonux.Lib CallSys List

/-! ### Events -/

namespace IpcEvent

/-- The message an event is about. -/
def about : IpcEvent → Option ℕ
  | .held _ _ m => some m.id
  | .queued _ _ m => some m.id
  | .invoked _ _ m => some m.id
  | .resent _ _ m => some m.id
  | .taken _ m => some m.id
  | .delivered _ _ m => some m.id
  | .dropped m => some m.id
  | .unhandled _ m => some m.id
  | .refused m => some m.id
  | .told _ _ => none
  | .linked _ _ => none

/-- The message is on a queue. -/
def onQueue : IpcEvent → Bool
  | .held _ _ _ => true
  | .queued _ _ _ => true
  | _ => false

/-- The message is on a queue, or a handler gets it. -/
def accepts : IpcEvent → Bool
  | .held _ _ _ => true
  | .queued _ _ _ => true
  | .delivered _ _ _ => true
  | _ => false

/-- The framework is done with the message. -/
def final : IpcEvent → Bool
  | .delivered _ _ _ => true
  | .dropped _ => true
  | .unhandled _ _ => true
  | .refused _ => true
  | _ => false

end IpcEvent

namespace Ipc

/-- The last event about a message. -/
def last (s : Ipc) (id : ℕ) : Option IpcEvent := lastAbout IpcEvent.about s.log id

end Ipc

/-- The messages of an entry, with its slots. -/
def HoldEntry.items (e : HoldEntry) : List (SlotId × SlotId × IpcMessage) :=
  e.queue.map fun m => (e.src, e.dst, m)

namespace Ipc

/-- What is held, in the entries that flushes have taken out as well. -/
def waiting (s : Ipc) : List (SlotId × SlotId × IpcMessage) :=
  (s.flushes.filterMap (·.cur)).flatMap HoldEntry.items ++ s.holds.flatMap HoldEntry.items

/-- A message that is on no queue. -/
def Off (s : Ipc) (id : ℕ) : Prop := id < s.nextMessage ∧ ∀ ev, s.last id = some ev → ev.onQueue = false

/-- A message that is on no queue and that the framework is not done with. -/
def InHand (s : Ipc) (id : ℕ) : Prop := s.Off id ∧ ∀ ev, s.last id = some ev → ev.final = false

/-- The framework is done with a message. -/
def Settled (s : Ipc) (id : ℕ) : Prop := ∃ ev, s.last id = some ev ∧ ev.final = true

/-- A message has been on a queue, or a handler got it. -/
def Accepted (s : Ipc) (id : ℕ) : Prop := ∃ ev ∈ s.log, ev.about = some id ∧ ev.accepts = true

/-- A flush has taken a message from its hold queue, to send it again. -/
def Resent (s : Ipc) (id : ℕ) : Prop := ∃ src dst m, m.id = id ∧ .resent src dst m ∈ s.log

/-- A message that may be sent: if it was on a queue, a flush has taken it from there. -/
def Sendable (s : Ipc) (id : ℕ) : Prop :=
  (∃ ev ∈ s.log, ev.about = some id ∧ ev.onQueue = true) → s.Resent id

/-- What the router has refused was to be sent. -/
def Honest (s : Ipc) (id : ℕ) : Prop := ∀ m, m.id = id → .refused m ∈ s.log → s.Sendable id

/-- Senders are told the truth. -/
def Truthful (s : Ipc) : Prop := ∀ m, .told m nxOk ∈ s.log → s.Accepted m.id

theorem Accepted.mono {s s' : Ipc} {id : ℕ} (h : s.Accepted id) (hsub : s.log ⊆ s'.log) :
    s'.Accepted id :=
  h.imp fun _ hev => ⟨hsub hev.1, hev.2⟩

/-- **The queues have the messages that the log says they have**, each once, and the framework is
done with a message at most once. -/
structure Accounted (s : Ipc) : Prop where
  old : ∀ ev ∈ s.log, ∀ id, ev.about = some id → id < s.nextMessage
  inbox : ∀ slot m, m ∈ s.inboxOf slot ↔ s.hosted = true ∧ ∃ src, s.last m.id = some (.queued src slot m)
  dispatcher : ∀ m, m ∈ s.dispatcher ↔ s.hosted = false ∧
    ∃ src dst, s.last m.id = some (.queued src dst m)
  waiting : ∀ src dst m, (src, dst, m) ∈ s.waiting ↔ s.last m.id = some (.held src dst m)
  inbox_nodup : ∀ slot, ((s.inboxOf slot).map (·.id)).Nodup
  dispatcher_nodup : (s.dispatcher.map (·.id)).Nodup
  waiting_nodup : (s.waiting.map (·.2.2.id)).Nodup
  once : ∀ id, (s.log.filter fun ev => ev.final && decide (ev.about = some id)).length =
    if (s.last id).any IpcEvent.final then 1 else 0

end Ipc

open Ipc

theorem accounted_boot (hosted : Bool) (slot : SlotId → Slot) (comp : CompId → Component) :
    (bootIpc hosted slot comp).Accounted := by
  constructor <;> simp [bootIpc, Ipc.inboxOf, Ipc.waiting, Ipc.last]

/-! ### One event -/

section Event

variable {s s' : Ipc} {id : ℕ} {ev : IpcEvent}

theorem last_tell (hlog : s'.log = s.log ++ [ev]) (habout : ev.about = some id) (k : ℕ) :
    s'.last k = if k = id then some ev else s.last k := by
  rw [Ipc.last, hlog, lastAbout_append_one, habout]
  simp only [Option.some.injEq, eq_comm, Ipc.last]

/-- **An event about a message the framework is not done with**: the queues have to follow it. -/
theorem Ipc.Accounted.event (h : s.Accounted) (hlog : s'.log = s.log ++ [ev])
    (habout : ev.about = some id) (hid : id < s'.nextMessage)
    (hnext : s.nextMessage ≤ s'.nextMessage) (hhosted : s'.hosted = s.hosted)
    (hlive : (s.last id).any IpcEvent.final = false) (hinbox : ∀ slot m, m ∈ s'.inboxOf slot ↔
      if m.id = id then s.hosted = true ∧ ∃ src, ev = .queued src slot m else m ∈ s.inboxOf slot)
    (hdispatcher : ∀ m, m ∈ s'.dispatcher ↔
      if m.id = id then s.hosted = false ∧ ∃ src dst, ev = .queued src dst m else m ∈ s.dispatcher)
    (hwaiting : ∀ src dst m, (src, dst, m) ∈ s'.waiting ↔
      if m.id = id then ev = .held src dst m else (src, dst, m) ∈ s.waiting)
    (hinbox' : ∀ slot, ((s'.inboxOf slot).map (·.id)).Nodup)
    (hdispatcher' : (s'.dispatcher.map (·.id)).Nodup)
    (hwaiting' : (s'.waiting.map (·.2.2.id)).Nodup) : s'.Accounted where
  old ev' hev' k hk := by
    rw [hlog, mem_append, mem_singleton] at hev'
    rcases hev' with hold | rfl
    · exact (h.old ev' hold k hk).trans_le hnext
    · rw [habout] at hk
      exact Option.some.inj hk ▸ hid
  inbox slot m := by
    rw [hinbox, last_tell hlog habout, hhosted]
    split_ifs
    · simp only [Option.some.injEq]
    · exact h.inbox slot m
  dispatcher m := by
    rw [hdispatcher, last_tell hlog habout, hhosted]
    split_ifs
    · simp only [Option.some.injEq]
    · exact h.dispatcher m
  waiting src dst m := by
    rw [hwaiting, last_tell hlog habout]
    split_ifs
    · simp only [Option.some.injEq]
    · exact h.waiting src dst m
  inbox_nodup := hinbox'
  dispatcher_nodup := hdispatcher'
  waiting_nodup := hwaiting'
  once k := by
    rw [hlog, filter_append, length_append, h.once k, last_tell hlog habout]
    by_cases hk : k = id
    · subst hk
      simp only [hlive, if_true, Option.any_some, filter_singleton, habout, decide_true, Bool.and_true]
      cases ev.final <;> rfl
    · have hne : ev.about ≠ some k := by
        rw [habout]
        exact fun heq => hk (Option.some.inj heq).symm
      rw [if_neg hk]
      simp [hne]

/-- Events about other messages. -/
theorem Ipc.Sendable.mono (h : s.Sendable id) (hsub : s.log ⊆ s'.log)
    (hold : ∀ ev ∈ s'.log, ev.about = some id → ev.onQueue = true → ev ∈ s.log) : s'.Sendable id := by
  rintro ⟨ev, hev, habout, hon⟩
  obtain ⟨src, dst, m, hid, hmem⟩ := h ⟨ev, hold ev hev habout hon, habout, hon⟩
  exact ⟨src, dst, m, hid, hsub hmem⟩

theorem Ipc.Honest.mono (h : s.Honest id) (hsub : s.log ⊆ s'.log)
    (hold : ∀ ev ∈ s'.log, ev.about = some id → ev ∈ s.log) : s'.Honest id :=
  fun m hid hm => (h m hid (hold _ hm (congrArg some hid))).mono hsub fun ev hev habout _ =>
    hold ev hev habout

/-- A message in hand is on no queue. -/
theorem Ipc.Off.not_mem_inbox (h : s.Accounted) (hoff : s.Off id) {slot : SlotId} {m : IpcMessage}
    (hm : m ∈ s.inboxOf slot) : m.id ≠ id := by
  rintro rfl
  obtain ⟨-, src, hlast⟩ := (h.inbox slot m).mp hm
  exact Bool.noConfusion (hoff.2 _ hlast)

theorem Ipc.Off.not_mem_dispatcher (h : s.Accounted) (hoff : s.Off id) {m : IpcMessage}
    (hm : m ∈ s.dispatcher) : m.id ≠ id := by
  rintro rfl
  obtain ⟨-, src, dst, hlast⟩ := (h.dispatcher m).mp hm
  exact Bool.noConfusion (hoff.2 _ hlast)

theorem Ipc.Off.not_mem_waiting (h : s.Accounted) (hoff : s.Off id) {item : SlotId × SlotId × IpcMessage}
    (hm : item ∈ s.waiting) : item.2.2.id ≠ id := by
  rintro rfl
  exact Bool.noConfusion (hoff.2 _ ((h.waiting item.1 item.2.1 item.2.2).mp hm))

theorem Ipc.InHand.live (hand : s.InHand id) : (s.last id).any IpcEvent.final = false := by
  cases hlast : s.last id with
  | none => rfl
  | some ev => exact hand.2 ev hlast

theorem Ipc.InHand.of_same (hand : s'.InHand id) (hlast : s'.last id = s.last id)
    (hnext : s'.nextMessage = s.nextMessage) : s.InHand id := by
  simpa only [Ipc.InHand, Ipc.Off, hlast, hnext] using hand

theorem Ipc.Settled.not_inHand (h : s.Settled id) : ¬ s.InHand id := by
  obtain ⟨ev, hlast, hfinal⟩ := h
  intro hand
  rw [hand.2 ev hlast] at hfinal
  cases hfinal

theorem Ipc.Settled.off (h : s.Accounted) (hsettled : s.Settled id) : s.Off id := by
  obtain ⟨ev, hlast, hfinal⟩ := hsettled
  refine ⟨h.old ev (mem_of_lastAbout hlast) id (about_of_lastAbout hlast), fun ev' hev' => ?_⟩
  obtain rfl := Option.some.inj (hlast.symm.trans hev')
  cases ev <;> first | rfl | cases hfinal

theorem Ipc.not_off_of_onQueue (hlast : s.last id = some ev) (hqueue : ev.onQueue = true) :
    ¬ s.Off id := by
  intro hoff
  rw [hoff.2 ev hlast] at hqueue
  cases hqueue

/-- A queue that does not have the message, after an event that does not put it there. -/
theorem iff_ite_of_not {c p q : Prop} [Decidable c] (hp : c → ¬ p) (hq : ¬ q) :
    p ↔ if c then q else p := by
  split_ifs with hc
  · exact iff_of_false (hp hc) hq
  · exact Iff.rfl

/-- An event about a message in hand that puts it on no queue. -/
theorem Ipc.Accounted.tell (h : s.Accounted) (hand : s.InHand id) (habout : ev.about = some id)
    (hoff : ev.onQueue = false) : (s.tell ev).Accounted := by
  refine h.event rfl habout hand.1.1 le_rfl rfl hand.live ?_ ?_ ?_ h.inbox_nodup h.dispatcher_nodup
    h.waiting_nodup
  · refine fun slot m => iff_ite_of_not (fun hid hm => hand.1.not_mem_inbox h hm hid) ?_
    rintro ⟨-, src, rfl⟩
    cases hoff
  · refine fun m => iff_ite_of_not (fun hid hm => hand.1.not_mem_dispatcher h hm hid) ?_
    rintro ⟨-, src, dst, rfl⟩
    cases hoff
  · refine fun src dst m => iff_ite_of_not (fun hid hm => hand.1.not_mem_waiting h hm hid) ?_
    rintro rfl
    cases hoff

end Event

/-! ### What others leave alone -/

/-- The queues are in order, messages that were on no queue are where they were, and none is in hand
that was not. What was refused was to be sent. Nothing is said of the messages of `X`. -/
structure Kept (X : Set ℕ) (s s' : Ipc) : Prop where
  accounted : s'.Accounted
  truthful : s.Truthful → s'.Truthful
  log : s.log ⊆ s'.log
  next : s.nextMessage ≤ s'.nextMessage
  still : ∀ id ∉ X, s.Off id → s'.last id = s.last id
  hands : ∀ id ∉ X, s'.InHand id → s.InHand id
  sendable : ∀ id ∉ X, s.Off id → s.Sendable id → s'.Sendable id
  honest : ∀ id ∉ X, s.Honest id → s'.Honest id

section Kept

variable {X : Set ℕ} {s s₁ s' : Ipc} {id : ℕ}

theorem Kept.refl (X : Set ℕ) (h : s.Accounted) : Kept X s s :=
  ⟨h, id, List.Subset.refl _, le_rfl, fun _ _ _ => rfl, fun _ _ hand => hand, fun _ _ _ hsend => hsend,
    fun _ _ hhonest => hhonest⟩

theorem Kept.off (h : Kept X s s') (hid : id ∉ X) (hoff : s.Off id) : s'.Off id := by
  refine ⟨hoff.1.trans_le h.next, ?_⟩
  rw [h.still id hid hoff]
  exact hoff.2

theorem Kept.inHand (h : Kept X s s') (hid : id ∉ X) (hand : s.InHand id) : s'.InHand id := by
  refine ⟨h.off hid hand.1, ?_⟩
  rw [h.still id hid hand.1]
  exact hand.2

theorem Kept.trans (h : Kept X s s₁) (h' : Kept X s₁ s') : Kept X s s' where
  accounted := h'.accounted
  truthful := h'.truthful ∘ h.truthful
  log := List.Subset.trans h.log h'.log
  next := h.next.trans h'.next
  still id hid hoff := (h'.still id hid (h.off hid hoff)).trans (h.still id hid hoff)
  hands id hid hand := h.hands id hid (h'.hands id hid hand)
  sendable id hid hoff hsend := h'.sendable id hid (h.off hid hoff) (h.sendable id hid hoff hsend)
  honest id hid hhonest := h'.honest id hid (h.honest id hid hhonest)

theorem Kept.mono {Y : Set ℕ} (h : Kept X s s') (hXY : X ⊆ Y) : Kept Y s s' where
  __ := h
  still id hid := h.still id fun hX => hid (hXY hX)
  hands id hid := h.hands id fun hX => hid (hXY hX)
  sendable id hid := h.sendable id fun hX => hid (hXY hX)
  honest id hid := h.honest id fun hX => hid (hXY hX)

/-- A message that was taken from a queue, or made, and that has been dealt with. -/
theorem Kept.dealt (h : Kept {id} s s') (hoff : ¬ s.Off id) (hand : ¬ s'.InHand id)
    (hhonest : s'.Honest id) : Kept ∅ s s' where
  __ := h
  still k _ hk := h.still k (fun heq => hoff (Set.mem_singleton_iff.mp heq ▸ hk)) hk
  hands k _ hk := h.hands k (fun heq => hand (Set.mem_singleton_iff.mp heq ▸ hk)) hk
  sendable k _ hk := h.sendable k (fun heq => hoff (Set.mem_singleton_iff.mp heq ▸ hk)) hk
  honest k _ hk := by
    by_cases heq : k = id
    · exact heq ▸ hhonest
    · exact h.honest k (fun hmem => heq (Set.mem_singleton_iff.mp hmem)) hk

/-- One event. -/
theorem Kept.of_event {ev : IpcEvent} (h : s'.Accounted) (hlog : s'.log = s.log ++ [ev])
    (habout : ev.about = some id) (hnext : s'.nextMessage = s.nextMessage) : Kept {id} s s' := by
  have hlast : ∀ k ∉ ({id} : Set ℕ), s'.last k = s.last k := by
    intro k hk
    rw [last_tell hlog habout, if_neg fun heq => hk (Set.mem_singleton_iff.mpr heq)]
  have hsub : s.log ⊆ s'.log := hlog ▸ subset_append_left _ _
  have hmem : ∀ ev' ∈ s'.log, ev' ∈ s.log ∨ ev' = ev := fun ev' hev' => by simpa [hlog] using hev'
  have hold : ∀ k ∉ ({id} : Set ℕ), ∀ ev' ∈ s'.log, ev'.about = some k → ev' ∈ s.log :=
    fun k hk ev' hev' hk' =>
    (hmem ev' hev').resolve_right fun heq => hk (Option.some.inj (hk'.symm.trans (heq ▸ habout)))
  refine ⟨h, fun ht m hm => ?_, hsub, hnext.ge, fun k hk _ => hlast k hk,
    fun k hk hand => hand.of_same (hlast k hk) hnext, fun k hk _ hsend => hsend.mono hsub
      fun ev' hev' hk' _ => hold k hk ev' hev' hk',
    fun k hk hhonest => hhonest.mono hsub (hold k hk)⟩
  rcases hmem _ hm with hm | rfl
  · exact (ht m hm).mono hsub
  · cases habout

/-- The framework is done with a message by the last event about it, and by no other. -/
theorem Ipc.Accounted.filter_final (h : s.Accounted) {ev : IpcEvent} (hmem : ev ∈ s.log)
    (habout : ev.about = some id) (hfinal : ev.final = true) :
    s.log.filter (fun ev => ev.final && decide (ev.about = some id)) = [ev] ∧ s.last id = some ev := by
  have hone := h.once id
  have hev : ev ∈ s.log.filter fun ev => ev.final && decide (ev.about = some id) :=
    mem_filter.mpr ⟨hmem, by simp [hfinal, habout]⟩
  split_ifs at hone with hany
  · obtain ⟨x, hx⟩ := length_eq_one_iff.mp hone
    cases hlast : s.last id with
    | none => simp [hlast] at hany
    | some ev' =>
      have hev' : ev' ∈ s.log.filter fun ev => ev.final && decide (ev.about = some id) :=
        mem_filter.mpr ⟨mem_of_lastAbout hlast, by simpa [hlast, about_of_lastAbout hlast] using hany⟩
      rw [hx, mem_singleton] at hev hev'
      rw [hx, hev, hev']
      exact ⟨rfl, rfl⟩
  · rw [length_eq_zero_iff.mp hone] at hev
    cases hev

/-- A message that something else has happened to since was not refused. -/
theorem Ipc.Accounted.honest (h : s.Accounted) {ev : IpcEvent} (hlast : s.last id = some ev)
    (hne : ∀ m, ev ≠ .refused m) : s.Honest id := by
  intro m hid hm
  rw [(h.filter_final hm (congrArg some hid) rfl).2] at hlast
  exact absurd (Option.some.inj hlast).symm (hne m)

/-- The framework is done with a message it had in hand. -/
theorem Kept.of_final (ev : IpcEvent) (h : s.Accounted) (hand : s.InHand id)
    (habout : ev.about = some id) (hfinal : ev.final = true) :
    Kept {id} s (s.tell ev) ∧ (s.tell ev).Settled id ∧
      ((∀ m, ev = .refused m → s.Sendable id) → (s.tell ev).Honest id) := by
  have hoff : ev.onQueue = false := by cases ev <;> first | rfl | cases hfinal
  have hacc := h.tell hand habout hoff
  have hlast : (s.tell ev).last id = some ev := (last_tell rfl habout id).trans (if_pos rfl)
  refine ⟨.of_event hacc rfl habout rfl, ⟨ev, hlast, hfinal⟩, fun hsend m hid hm => ?_⟩
  have hev : ev = .refused m :=
    Option.some.inj (hlast.symm.trans (hacc.filter_final hm (congrArg some hid) rfl).2)
  refine (hsend m hev).mono (subset_append_left _ _) fun ev' hev' _ hon => ?_
  refine (mem_append.mp hev').resolve_right fun heq => ?_
  rw [mem_singleton.mp heq, hoff] at hon
  cases hon

/-- Steps that move no message. What they log is about none. -/
theorem Kept.of_same (h : s.Accounted) {es : List IpcEvent} (hlog : s'.log = s.log ++ es)
    (hnone : ∀ ev ∈ es, ev.about = none) (htold : ∀ m, .told m nxOk ∈ es → s.Accepted m.id)
    (hnext : s'.nextMessage = s.nextMessage) (hhosted : s'.hosted = s.hosted)
    (hinbox : s'.inbox = s.inbox) (hdispatcher : s'.dispatcher = s.dispatcher)
    (hwaiting : s'.waiting.Perm s.waiting) : Kept ∅ s s' := by
  have hbox : ∀ slot, s'.inboxOf slot = s.inboxOf slot := fun slot => by
    rw [Ipc.inboxOf, hinbox, Ipc.inboxOf]
  have hsub : s.log ⊆ s'.log := hlog ▸ subset_append_left _ _
  have hlast : ∀ k, s'.last k = s.last k := fun k => by
    rw [Ipc.last, hlog, lastAbout_append_of_forall hnone, Ipc.last]
  have hold : ∀ ev ∈ s'.log, ∀ k, ev.about = some k → ev ∈ s.log := fun ev hev k hk => by
    rw [hlog, mem_append] at hev
    exact hev.resolve_right fun hes => by simp [hnone ev hes] at hk
  refine ⟨⟨?_, ?_, ?_, ?_, ?_, ?_, ?_, ?_⟩, fun ht m hm => ?_, hsub, hnext.ge, fun k _ _ => hlast k,
    fun k _ hand => hand.of_same (hlast k) hnext,
    fun k _ _ hsend => hsend.mono hsub fun ev hev hk _ => hold ev hev k hk,
    fun k _ hhonest => hhonest.mono hsub fun ev hev hk => hold ev hev k hk⟩
  · exact fun ev hev k hk => hnext ▸ h.old ev (hold ev hev k hk) k hk
  · intro slot m
    rw [hbox, hlast, hhosted]
    exact h.inbox slot m
  · intro m
    rw [hdispatcher, hlast, hhosted]
    exact h.dispatcher m
  · intro src dst m
    rw [hwaiting.mem_iff, hlast]
    exact h.waiting src dst m
  · intro slot
    rw [hbox]
    exact h.inbox_nodup slot
  · rw [hdispatcher]
    exact h.dispatcher_nodup
  · exact (hwaiting.map _).nodup_iff.mpr h.waiting_nodup
  · intro k
    have hes : es.filter (fun ev => ev.final && decide (ev.about = some k)) = [] :=
      filter_eq_nil_iff.mpr fun ev hev => by simp [hnone ev hev]
    rw [hlog, filter_append, hes, append_nil, hlast]
    exact h.once k
  · rw [hlog, mem_append] at hm
    exact (hm.elim (ht m) (htold m)).mono hsub

theorem Kept.of_log (h : s.Accounted) (hlog : s'.log = s.log) (hnext : s'.nextMessage = s.nextMessage)
    (hhosted : s'.hosted = s.hosted) (hinbox : s'.inbox = s.inbox)
    (hdispatcher : s'.dispatcher = s.dispatcher) (hwaiting : s'.waiting.Perm s.waiting) :
    Kept ∅ s s' :=
  .of_same h (show s'.log = s.log ++ [] by rw [hlog, append_nil]) (by simp) (by simp) hnext hhosted
    hinbox hdispatcher hwaiting

end Kept

/-! ### On and off the queues -/

section Queues

variable {s s' : Ipc} {src dst : SlotId} {m : IpcMessage}

section Lists

variable {β : Type} {f : β → ℕ} {b : β} {q q' : List β}

/-- A queue with one more that it did not have. -/
theorem mem_put (hperm : q'.Perm (b :: q)) (h : (q.map f).Nodup) (hno : ∀ x ∈ q, f x ≠ f b) :
    (q'.map f).Nodup ∧ ∀ x, x ∈ q' ↔ if f x = f b then b = x else x ∈ q := by
  refine ⟨?_, fun x => ?_⟩
  · rw [(hperm.map f).nodup_iff, map_cons, nodup_cons]
    exact ⟨fun hmem => (mem_map.mp hmem).elim fun x hx => hno x hx.1 hx.2, h⟩
  · rw [hperm.mem_iff, mem_cons, @eq_comm _ x]
    split_ifs with hx
    · exact or_iff_left fun hmem => hno x hmem hx
    · exact or_iff_right fun heq => hx (heq ▸ rfl)

/-- A queue without one that it had. -/
theorem mem_take (hperm : q.Perm (b :: q')) (h : (q.map f).Nodup) :
    (q'.map f).Nodup ∧ ∀ x, x ∈ q' ↔ if f x = f b then False else x ∈ q := by
  rw [(hperm.map f).nodup_iff, map_cons, nodup_cons] at h
  refine ⟨h.2, fun x => ?_⟩
  split_ifs with hx
  · exact iff_of_false (fun hmem => h.1 (hx ▸ mem_map_of_mem hmem)) id
  · rw [hperm.mem_iff, mem_cons]
    exact (or_iff_right fun heq : x = b => hx (heq ▸ rfl)).symm

end Lists

/-- A message in hand goes into an inbox. -/
theorem Ipc.Accounted.queued (h : s.Accounted) (hand : s.InHand m.id) (hhosted : s.hosted = true)
    (hlog : s'.log = s.log ++ [.queued src dst m]) (hnext : s'.nextMessage = s.nextMessage)
    (hhosted' : s'.hosted = s.hosted)
    (hinbox : ∀ slot, s'.inboxOf slot = if slot = dst then s.inboxOf dst ++ [m] else s.inboxOf slot)
    (hdispatcher : s'.dispatcher = s.dispatcher) (hwaiting : s'.waiting = s.waiting) : s'.Accounted := by
  have hput := mem_put (perm_append_singleton m (s.inboxOf dst)) (h.inbox_nodup dst)
    fun m' hm => hand.1.not_mem_inbox h hm
  refine h.event hlog rfl (hnext ▸ hand.1.1) hnext.ge hhosted' hand.live ?_ ?_ ?_ ?_
    (hdispatcher ▸ h.dispatcher_nodup) (hwaiting ▸ h.waiting_nodup)
  · intro slot m'
    rw [hinbox]
    by_cases hslot : slot = dst
    · subst hslot
      rw [if_pos rfl, hput.2]
      simp [hhosted]
    · rw [if_neg hslot]
      refine iff_ite_of_not (fun hid hm => hand.1.not_mem_inbox h hm hid) ?_
      rintro ⟨-, src', heq⟩
      cases heq
      exact hslot rfl
  · intro m'
    rw [hdispatcher]
    refine iff_ite_of_not (fun hid hm => hand.1.not_mem_dispatcher h hm hid) ?_
    rw [hhosted]
    exact fun hm => Bool.noConfusion hm.1
  · intro a b m'
    rw [hwaiting]
    exact iff_ite_of_not (fun hid hm => hand.1.not_mem_waiting h hm hid) nofun
  · intro slot
    rw [hinbox]
    split_ifs
    · exact hput.1
    · exact h.inbox_nodup slot

/-- A message in hand goes into the queue of the dispatcher. -/
theorem Ipc.Accounted.dispatched (h : s.Accounted) (hand : s.InHand m.id) (hhosted : s.hosted = false)
    (hlog : s'.log = s.log ++ [.queued src dst m]) (hnext : s'.nextMessage = s.nextMessage)
    (hhosted' : s'.hosted = s.hosted) (hinbox : s'.inboxOf = s.inboxOf)
    (hdispatcher : s'.dispatcher = s.dispatcher ++ [m]) (hwaiting : s'.waiting = s.waiting) :
    s'.Accounted := by
  have hput := mem_put (perm_append_singleton m s.dispatcher) h.dispatcher_nodup
    fun m' hm => hand.1.not_mem_dispatcher h hm
  refine h.event hlog rfl (hnext ▸ hand.1.1) hnext.ge hhosted' hand.live ?_ ?_ ?_
    (hinbox ▸ h.inbox_nodup) (hdispatcher ▸ hput.1) (hwaiting ▸ h.waiting_nodup)
  · intro slot m'
    rw [hinbox]
    refine iff_ite_of_not (fun hid hm => hand.1.not_mem_inbox h hm hid) ?_
    rw [hhosted]
    exact fun hm => Bool.noConfusion hm.1
  · intro m'
    rw [hdispatcher, hput.2]
    simp [hhosted]
  · intro a b m'
    rw [hwaiting]
    exact iff_ite_of_not (fun hid hm => hand.1.not_mem_waiting h hm hid) nofun

/-- A message in hand goes on a hold queue. -/
theorem Ipc.Accounted.held (h : s.Accounted) (hand : s.InHand m.id)
    (hlog : s'.log = s.log ++ [.held src dst m]) (hnext : s'.nextMessage = s.nextMessage)
    (hhosted : s'.hosted = s.hosted) (hinbox : s'.inboxOf = s.inboxOf)
    (hdispatcher : s'.dispatcher = s.dispatcher)
    (hwaiting : s'.waiting.Perm ((src, dst, m) :: s.waiting)) : s'.Accounted := by
  have hput := mem_put hwaiting h.waiting_nodup fun item hitem => hand.1.not_mem_waiting h hitem
  refine h.event hlog rfl (hnext ▸ hand.1.1) hnext.ge hhosted hand.live ?_ ?_ ?_ (hinbox ▸ h.inbox_nodup)
    (hdispatcher ▸ h.dispatcher_nodup) hput.1
  · intro slot m'
    rw [hinbox]
    exact iff_ite_of_not (fun hid hm => hand.1.not_mem_inbox h hm hid) nofun
  · intro m'
    rw [hdispatcher]
    exact iff_ite_of_not (fun hid hm => hand.1.not_mem_dispatcher h hm hid) nofun
  · intro a b m'
    rw [hput.2]
    simp

/-- The first message of an inbox is taken in hand. -/
theorem Ipc.Accounted.taken (h : s.Accounted) {q : List IpcMessage} (hbox : s.inboxOf dst = m :: q)
    (hlog : s'.log = s.log ++ [.taken dst m]) (hnext : s'.nextMessage = s.nextMessage)
    (hhosted : s'.hosted = s.hosted)
    (hinbox : ∀ slot, s'.inboxOf slot = if slot = dst then q else s.inboxOf slot)
    (hdispatcher : s'.dispatcher = s.dispatcher) (hwaiting : s'.waiting = s.waiting) : s'.Accounted := by
  obtain ⟨hhost, src, hlast⟩ := (h.inbox dst m).mp (hbox ▸ mem_cons_self)
  have htake := mem_take (.of_eq hbox) (h.inbox_nodup dst)
  have hlt : m.id < s'.nextMessage := hnext ▸ h.old _ (mem_of_lastAbout hlast) m.id rfl
  refine h.event hlog rfl hlt hnext.ge hhosted (by rw [hlast]; rfl) ?_ ?_ ?_ ?_
    (hdispatcher ▸ h.dispatcher_nodup) (hwaiting ▸ h.waiting_nodup)
  · intro slot m'
    rw [hinbox]
    by_cases hslot : slot = dst
    · rw [if_pos hslot, htake.2, hslot]
      simp
    · -- the last event about the message says which inbox it is in
      rw [if_neg hslot]
      refine iff_ite_of_not (fun hid hm' => hslot ?_) nofun
      obtain ⟨-, src', hlast'⟩ := (h.inbox slot m').mp hm'
      rw [hid, hlast] at hlast'
      cases hlast'
      rfl
  · intro m'
    rw [hdispatcher]
    refine iff_ite_of_not (fun _ hm' => ?_) nofun
    simpa [hhost] using ((h.dispatcher m').mp hm').1
  · intro a b m'
    rw [hwaiting]
    refine iff_ite_of_not (fun hid hm' => ?_) nofun
    simpa [hid, hlast] using (h.waiting a b m').mp hm'
  · intro slot
    rw [hinbox]
    split_ifs
    · exact htake.1
    · exact h.inbox_nodup slot

/-- A message that is held is taken in hand. -/
theorem Ipc.Accounted.resent (h : s.Accounted) (hwaiting : s.waiting.Perm ((src, dst, m) :: s'.waiting))
    (hlog : s'.log = s.log ++ [.resent src dst m]) (hnext : s'.nextMessage = s.nextMessage)
    (hhosted : s'.hosted = s.hosted) (hinbox : s'.inboxOf = s.inboxOf)
    (hdispatcher : s'.dispatcher = s.dispatcher) : s'.Accounted := by
  have hlast : s.last m.id = some (.held src dst m) :=
    (h.waiting src dst m).mp (hwaiting.mem_iff.mpr mem_cons_self)
  have hlt : m.id < s'.nextMessage := hnext ▸ h.old _ (mem_of_lastAbout hlast) m.id rfl
  have htake := mem_take hwaiting h.waiting_nodup
  refine h.event hlog rfl hlt hnext.ge hhosted (by rw [hlast]; rfl) ?_ ?_ ?_ (hinbox ▸ h.inbox_nodup)
    (hdispatcher ▸ h.dispatcher_nodup) htake.1
  · intro slot m'
    rw [hinbox]
    refine iff_ite_of_not (fun hid hm' => ?_) nofun
    simpa [hid, hlast] using (h.inbox slot m').mp hm'
  · intro m'
    rw [hdispatcher]
    refine iff_ite_of_not (fun hid hm' => ?_) nofun
    simpa [hid, hlast] using (h.dispatcher m').mp hm'
  · intro a b m'
    rw [htake.2]
    simp

end Queues

/-! ### The steps of the router -/

section Steps

variable {s : Ipc} {src dst : SlotId} {m : IpcMessage}

theorem holdEnqueue_perm {l l' : List HoldEntry} (h : holdEnqueue src dst m l = some l') :
    (l'.flatMap HoldEntry.items).Perm ((src, dst, m) :: l.flatMap HoldEntry.items) := by
  induction l generalizing l' with
  | nil => cases h
  | cons e l ih =>
    rw [holdEnqueue] at h
    split_ifs at h with hon
    · obtain ⟨rfl, rfl⟩ := hon
      obtain rfl := Option.some.inj h
      rw [flatMap_cons, flatMap_cons, HoldEntry.items, HoldEntry.items, map_append, map_singleton,
        append_assoc, singleton_append]
      exact perm_middle
    · obtain ⟨l'', hl'', rfl⟩ := Option.map_eq_some_iff.mp h
      rw [flatMap_cons, flatMap_cons]
      exact ((ih hl'').append_left _).trans perm_middle

/-- What the router has done with a message. -/
def Ipc.Route.Fate (s s' : Ipc) (id : ℕ) : Ipc.Route → Prop
  | .failed _ => s'.Settled id ∧ (s.Sendable id → s'.Honest id)
  | .accepted => ¬ s'.InHand id ∧ s'.Accepted id ∧ s'.Honest id
  | .redirect _ => s'.InHand id ∧ (s.Sendable id → s'.Sendable id)
  | .invoke => s'.InHand id

/-- A message that is in hand after an event. -/
theorem Ipc.InHand.of_last {s' : Ipc} (ev : IpcEvent) {id : ℕ} (hlast : s'.last id = some ev)
    (hlt : id < s'.nextMessage) (hoff : ev.onQueue = false) (hlive : ev.final = false) :
    s'.InHand id := by
  have hev : ∀ ev', s'.last id = some ev' → ev' = ev :=
    fun ev' hev' => Option.some.inj (hev'.symm.trans hlast)
  exact ⟨⟨hlt, fun ev' hev' => hev ev' hev' ▸ hoff⟩, fun ev' hev' => hev ev' hev' ▸ hlive⟩

/-- One attempt to send a message that is in hand. -/
theorem Routed.kept {res : Ipc × Ipc.Route} (hr : Routed s src dst m res) (h : s.Accounted)
    (hand : s.InHand m.id) :
    Kept {m.id} s res.1 ∧ res.1.flushes = s.flushes ∧ res.2.Fate s res.1 m.id := by
  have hqueue : ∀ {s' : Ipc} {ev : IpcEvent}, s'.Accounted → s'.log = s.log ++ [ev] →
    ev.about = some m.id →
      ev.onQueue = true → s'.nextMessage = s.nextMessage → s'.flushes = s.flushes →
      Kept {m.id} s s' ∧ s'.flushes = s.flushes ∧ ¬ s'.InHand m.id ∧ s'.Accepted m.id ∧
        s'.Honest m.id := by
    intro s' ev hacc hlog habout hon hnext hflushes
    have hlast : s'.last m.id = some ev := by rw [last_tell hlog habout, if_pos rfl]
    have haccepts : ev.accepts = true := by cases ev <;> first | rfl | cases hon
    refine ⟨.of_event hacc hlog habout hnext, hflushes, fun hhand => not_off_of_onQueue hlast hon
      hhand.1, ⟨ev, mem_of_lastAbout hlast, habout, haccepts⟩, hacc.honest hlast fun m heq => ?_⟩
    rw [heq] at hon
    cases hon
  cases hr with
  | refused e =>
    obtain ⟨hkept, hsettled, hhonest⟩ := Kept.of_final (.refused m) h hand rfl rfl
    exact ⟨hkept, rfl, hsettled, fun hsend => hhonest fun _ _ => hsend⟩
  | held hop hpaused hpolicy hholds =>
    have hperm := (holdEnqueue_perm hholds).append_left
      ((s.flushes.filterMap (·.cur)).flatMap HoldEntry.items)
    exact hqueue (h.held hand rfl rfl rfl rfl rfl (hperm.trans perm_middle)) rfl rfl rfl rfl rfl
  | heldFirst => exact hqueue (h.held hand rfl rfl rfl rfl rfl perm_middle) rfl rfl rfl rfl rfl
  | redirect => exact ⟨.refl _ h, rfl, hand, id⟩
  | invoked =>
    refine ⟨.of_event (h.tell hand rfl rfl) rfl rfl rfl, rfl, .of_last (.invoked src dst m) ?_
      hand.1.1 rfl rfl⟩
    exact (last_tell (s := s) rfl rfl m.id).trans (if_pos rfl)
  | queued hop hnone hmode hhosted =>
    exact hqueue (h.queued hand hhosted rfl rfl rfl (inboxOf_update _) rfl rfl) rfl rfl rfl rfl rfl
  | dispatched hop hnone hmode hhosted =>
    exact hqueue (h.dispatched hand hhosted rfl rfl rfl rfl rfl rfl) rfl rfl rfl rfl rfl

/-- The handler of a slot gets the message, or nobody does. -/
theorem Handled.kept {res : Ipc × Option CompId} (hr : Handled s dst m res) (h : s.Accounted)
    (hand : s.InHand m.id) :
    Kept {m.id} s res.1 ∧ res.1.flushes = s.flushes ∧ res.1.Settled m.id ∧ res.1.Honest m.id := by
  cases hr with
  | nobody =>
    obtain ⟨hkept, hsettled, hhonest⟩ := Kept.of_final (.unhandled dst m) h hand rfl rfl
    exact ⟨hkept, rfl, hsettled, hhonest (by simp)⟩
  | @component c =>
    obtain ⟨hkept, hsettled, hhonest⟩ := Kept.of_final (.delivered dst c m) h hand rfl rfl
    exact ⟨hkept, rfl, hsettled, hhonest (by simp)⟩

/-- The next message of an inbox is in hand, and it was not before. -/
theorem Dequeued.kept {slot : SlotId} {res : Ipc × Option IpcMessage} (hr : Dequeued s slot res)
    (h : s.Accounted) (hsome : res.2 = some m) :
    Kept {m.id} s res.1 ∧ res.1.flushes = s.flushes ∧ ¬ s.Off m.id ∧ res.1.InHand m.id := by
  cases hr with
  | empty => cases hsome
  | @taken m' q hinbox =>
    obtain rfl := Option.some.inj hsome
    obtain ⟨-, src, hlast⟩ := (h.inbox slot m').mp (hinbox ▸ mem_cons_self)
    have hacc : ({ s with inbox := Function.update s.inbox slot (some q) }.tell
        (.taken slot m')).Accounted :=
      h.taken hinbox rfl rfl rfl (inboxOf_update _) rfl rfl
    refine ⟨.of_event hacc rfl rfl rfl, rfl, not_off_of_onQueue hlast rfl, .of_last (.taken slot m')
      ?_ ?_ rfl rfl⟩
    · exact (last_tell (s := s) rfl rfl m'.id).trans (if_pos rfl)
    · exact h.old _ (mem_of_lastAbout hlast) m'.id rfl

/-- Taking a message from the entry takes it from what is held. -/
theorem waiting_of_dequeue {f : Flush} {outer : List Flush} {e : HoldEntry} {queue : List IpcMessage}
    (hflushes : s.flushes = f :: outer) (hcur : f.cur = some e) (hqueue : e.queue = m :: queue) :
    s.waiting = (e.src, e.dst, m) ::
      ({ s with flushes := { f with cur := some { e with queue } } :: outer }.tell
        (.resent e.src e.dst m)).waiting := by
  simp [Ipc.waiting, Ipc.tell, hflushes, hcur, HoldEntry.items, hqueue]

/-- The next message of an entry is in hand, and it was not before. -/
theorem HoldDequeued.kept {res : Ipc × Option IpcMessage} (hr : HoldDequeued s res) (h : s.Accounted)
    (hsome : res.2 = some m) :
    Kept {m.id} s res.1 ∧ ¬ s.Off m.id ∧ res.1.InHand m.id ∧ res.1.Sendable m.id := by
  cases hr with
  | empty => cases hsome
  | @taken f outer e m' queue hflushes hcur hqueue =>
    obtain rfl := Option.some.inj hsome
    have hwaiting := waiting_of_dequeue hflushes hcur hqueue
    have hlast : s.last m'.id = some (.held e.src e.dst m') :=
      (h.waiting _ _ _).mp (hwaiting ▸ mem_cons_self)
    refine ⟨.of_event (h.resent (by rw [hwaiting]) rfl rfl rfl rfl rfl) rfl rfl rfl,
      not_off_of_onQueue hlast rfl, .of_last (.resent e.src e.dst m') ?_ ?_ rfl rfl,
      fun _ => ⟨e.src, e.dst, m', rfl, mem_append_right _ (mem_singleton_self _)⟩⟩
    · exact (last_tell (s := s) rfl rfl m'.id).trans (if_pos rfl)
    · exact h.old _ (mem_of_lastAbout hlast) m'.id rfl

/-- An entry is taken out of the list, for a flush that has none. It is still held. -/
theorem Sought.waiting_perm {res : Ipc × Bool} (hr : Sought s res)
    (hcur : ∀ f outer, s.flushes = f :: outer → f.cur = none) : res.1.waiting.Perm s.waiting := by
  cases hr with
  | idle => exact .refl _
  | fault => exact .refl _
  | @through f outer pp before passed hflushes => simp [Ipc.waiting, hflushes, hcur f outer hflushes]
  | @found f outer pp before passed rest e hflushes hholds =>
    refine perm_iff_count.mpr fun item => ?_
    simp only [Ipc.waiting, hflushes, hholds, hcur f outer hflushes, filterMap_cons, flatMap_cons,
      flatMap_append, count_append]
    omega

theorem Sought.kept {res : Ipc × Bool} (hr : Sought s res) (h : s.Accounted)
    (hcur : ∀ f outer, s.flushes = f :: outer → f.cur = none) : Kept ∅ s res.1 := by
  have hperm := hr.waiting_perm hcur
  cases hr <;> exact .of_log h rfl rfl rfl rfl rfl hperm

end Steps

/-! ### The contract -/

/-- What may have happened when a call returns: messages in hand were left alone, and none is in
hand that was not. -/
def Tidy (s s' : Ipc) : Prop := s.Accounted → Kept ∅ s s' ∧ s'.flushes = s.flushes

theorem Tidy.refl (s : Ipc) : Tidy s s := fun h => ⟨.refl _ h, rfl⟩

theorem Tidy.trans {s s₁ s' : Ipc} (h : Tidy s s₁) (h' : Tidy s₁ s') : Tidy s s' := by
  intro hs
  obtain ⟨hkept, hflushes⟩ := h hs
  obtain ⟨hkept', hflushes'⟩ := h' hkept.accounted
  exact ⟨hkept.trans hkept', hflushes'.trans hflushes⟩

/-- The entry of a trace is a call of a handler. -/
def HandlerCall (e : Asked Ipc IpcAtom.Res IpcProc.Res IpcCallback.Res) : Prop :=
  ∃ c m, e.req = .callback (.handleMsg c m)

/-- What sending does with a message in hand: it is dealt with, and if an error is returned it is on
no queue, unless a handler ran; and if none is returned it was on a queue or a handler got it. -/
def Sent (m : IpcMessage) (s : Ipc) (tr : ipc.Trace) (s' : Ipc) (rc : ℤ) : Prop :=
  Kept {m.id} s s' ∧ s'.flushes = s.flushes ∧ ¬ s'.InHand m.id ∧
    (rc ≠ nxOk → (∀ e ∈ tr, ¬ HandlerCall e) → s'.Off m.id) ∧ (rc = nxOk → s'.Accepted m.id) ∧
    (s.Sendable m.id → s'.Honest m.id)

/-- **What the functions of the router do with messages.** Flushing works with its own record on top
of the others. -/
def fates : Contract ipc where
  spec _ f s tr s' r :=
    match f, r with
    | .nxIpcSend m, rc => s.Accounted → s.InHand m.id → Sent m s tr s' rc
    | .flushLoop, _ => s.Accounted → ∀ f outer, s.flushes = f :: outer → f.cur = none →
        Kept ∅ s s' ∧ ∃ pp, s'.flushes = { f with pp } :: outer
    | .replay, _ => s.Accounted → ∀ f outer e, s.flushes = f :: outer → f.cur = some e →
        Kept ∅ s s' ∧ s'.flushes = { f with cur := some { e with queue := [] } } :: outer
    | _, _ => Tidy s s'
  rely := Tidy

section Bodies

variable {ok : Ipc → IpcAtom → Prop} {chk : Bool} {s : Ipc}

theorem mem_events {call : RegCall} {st : Status} {ev : IpcEvent} (h : ev ∈ call.events st) :
    ∃ src dst, ev = .linked src dst := by
  unfold RegCall.events at h
  split at h
  · exact ⟨_, _, mem_singleton.mp h⟩
  · cases h

theorem tidy_aside {a : IpcAtom} (ha : a.aside = true) (answer : Bool) : Tidy s (s.exec answer a).1 := by
  intro h
  cases a <;> cases ha <;> exact ⟨.of_log h rfl rfl rfl rfl rfl (.refl _), rfl⟩

theorem keeps_aside (a : IpcAtom) (ha : a.aside = true) : Keeps ok fates chk Tidy (.atom a) := by
  rintro s s' r - ⟨answer, heq⟩
  have htidy := tidy_aside (s := s) ha answer
  rw [heq] at htidy
  exact htidy

theorem keeps_reg (call : RegCall) : Keeps ok fates chk Tidy (.atom (.reg call)) := by
  rintro s s' r - ⟨answer, heq⟩ h
  obtain ⟨rfl, -⟩ := Prod.mk.inj heq
  refine ⟨.of_same h rfl (fun ev hev => ?_) (fun m hm => ?_) rfl rfl rfl rfl (.refl _), rfl⟩
  · obtain ⟨src, dst, rfl⟩ := mem_events hev
    rfl
  · obtain ⟨src, dst, heq⟩ := mem_events hm
    cases heq

theorem Ipc.Settled.kept {s' : Ipc} {id : ℕ} (hsettled : s.Settled id) (h : s.Accounted)
    (hkept : Kept ∅ s s') : s'.Settled id := by
  obtain ⟨ev, hlast, hfinal⟩ := hsettled
  exact ⟨ev, (hkept.still id (Set.notMem_empty id) (Settled.off h ⟨ev, hlast, hfinal⟩)).trans hlast,
    hfinal⟩

variable {m : IpcMessage}

/-- Handing a message to its handler, and what the handler does. -/
theorem wp_invokeHandler {dst : SlotId} (h : s.Accounted) (hand : s.InHand m.id) :
    wp ok fates chk (invokeHandler dst m) s fun _ s' rc =>
      Kept {m.id} s s' ∧ s'.flushes = s.flushes ∧ s'.Settled m.id ∧ (rc = nxOk → s'.Accepted m.id) ∧
        s'.Honest m.id := by
  refine wp_atom_bind_of (fun _ => handlerFor_handled s dst m) fun s₁ handler hhandled _ => ?_
  obtain ⟨hkept, hflushes, hsettled, hhonest⟩ := hhandled.kept h hand
  cases hhandled with
  | nobody => exact ⟨hkept, hflushes, hsettled, fun hok => absurd hok (Err.code_ne_nxOk _), hhonest⟩
  | @component c =>
    intro s' rc htidy
    obtain ⟨hkept', hflushes'⟩ := htidy hkept.accounted
    refine ⟨hkept.trans (hkept'.mono (Set.empty_subset _)), hflushes'.trans hflushes,
      hsettled.kept hkept.accounted hkept', fun _ => ?_, hkept'.honest _ (Set.notMem_empty _) hhonest⟩
    exact ⟨.delivered dst c m, hkept'.log (mem_append_right _ (mem_singleton_self _)), rfl, rfl⟩

/-- One attempt to send. Either the message is dealt with, or it is still in hand and is
redirected. -/
theorem wp_doSendOnce {redirected : Option SlotId → IpcM ℤ} {Q : ipc.Trace → Ipc → ℤ → Prop} (h : s.Accounted)
    (hand : s.InHand m.id)
    (hdone : ∀ tr s' rc, Sent m s tr s' rc → Q tr s' rc)
    (hredirected : ∀ tr s' fallback, Kept {m.id} s s' → s'.flushes = s.flushes → s'.InHand m.id →
      (s.Sendable m.id → s'.Sendable m.id) →
      wp ok fates chk (redirected fallback) s' fun tr' => Q (tr ++ tr')) :
    wp ok fates chk (doSendOnce m redirected) s Q := by
  have hsettled : ∀ tr s' rc, Kept {m.id} s s' → s'.flushes = s.flushes → s'.Settled m.id →
      (rc = nxOk → s'.Accepted m.id) → (s.Sendable m.id → s'.Honest m.id) → Q tr s' rc :=
    fun tr s' rc hkept hflushes hsettled hok hhonest =>
      hdone tr s' rc ⟨hkept, hflushes, hsettled.not_inHand, fun _ _ => hsettled.off hkept.accounted,
        hok, hhonest⟩
  have herror : ∀ {s' : Ipc} (e : Err), e.code = nxOk → s'.Accepted m.id := fun e hok => absurd hok (Err.code_ne_nxOk e)
  unfold doSendOnce
  split
  next src dst hsrc hdst =>
    refine wp_callback_bind.mpr fun s₁ abort htidy => ?_
    obtain ⟨hkept₁, hflushes₁⟩ := htidy h
    have hand₁ := hkept₁.inHand (Set.notMem_empty _) hand
    have hsend₁ := hkept₁.sendable m.id (Set.notMem_empty _) hand.1
    replace hkept₁ : Kept {m.id} s s₁ := hkept₁.mono (Set.empty_subset _)
    refine wp_ite.mpr ⟨fun _ => wp_atom_bind.mpr fun _ _ => ?_, fun _ => ?_⟩
    · obtain ⟨hkept₂, hgone, hhonest⟩ := Kept.of_final (.dropped m) hkept₁.accounted hand₁ rfl rfl
      exact hsettled _ _ _ (hkept₁.trans hkept₂) hflushes₁ hgone (herror _) fun _ => hhonest (by simp)
    · refine wp_atom_bind_of (route_routed s₁ src dst m) fun s₂ route hrouted _ => ?_
      obtain ⟨hkept₂, hflushes₂, hfate⟩ := hrouted.kept hkept₁.accounted hand₁
      have hkept := hkept₁.trans hkept₂
      have hflushes := hflushes₂.trans hflushes₁
      cases route with
      | failed e => exact hsettled _ _ _ hkept hflushes hfate.1 (herror e) fun hsend => hfate.2 (hsend₁ hsend)
      | accepted =>
        exact hdone _ _ _ ⟨hkept, hflushes, hfate.1, fun hne => absurd rfl hne, fun _ => hfate.2.1,
          fun _ => hfate.2.2⟩
      | redirect fallback =>
        exact hredirected [_, _] _ fallback hkept hflushes hfate.1 fun hsend => hfate.2 (hsend₁ hsend)
      | invoke =>
        refine wp_mono (wp_invokeHandler hkept.accounted hfate) ?_
        rintro tr s' rc ⟨hkept', hflushes', hgone, hok, hhonest⟩
        exact hsettled _ _ _ (hkept.trans hkept') (hflushes'.trans hflushes) hgone hok fun _ => hhonest
  next =>
    refine wp_atom_bind.mpr fun _ _ => ?_
    obtain ⟨hkept, hgone, hhonest⟩ := Kept.of_final (.refused m) h hand rfl rfl
    exact hsettled _ _ _ hkept rfl hgone (herror _) fun hsend => hhonest fun _ _ => hsend

/-- A redirection that leads nowhere. -/
theorem wp_refuseWith {e : Err} (h : s.Accounted) (hand : s.InHand m.id) :
    wp ok fates chk (refuseWith m e) s (Sent m s) := by
  refine wp_atom_bind.mpr fun _ _ => ?_
  obtain ⟨hkept, hgone, hhonest⟩ := Kept.of_final (.refused m) h hand rfl rfl
  exact ⟨hkept, rfl, hgone.not_inHand, fun _ _ => hgone.off hkept.accounted,
    fun hok => absurd hok (Err.code_ne_nxOk e), fun hsend => hhonest fun _ _ => hsend⟩

/-- A redirection, and what comes of it. -/
theorem Sent.trans {s₁ s' : Ipc} {tr tr' : ipc.Trace} {rc : ℤ} (hkept : Kept {m.id} s s₁)
    (hflushes : s₁.flushes = s.flushes) (hsend : s.Sendable m.id → s₁.Sendable m.id)
    (h : Sent m s₁ tr' s' rc) : Sent m s (tr ++ tr') s' rc := by
  obtain ⟨hkept', hflushes', hhand, herror, hok, hhonest⟩ := h
  refine ⟨hkept.trans hkept', hflushes'.trans hflushes, hhand, fun hne hno => herror hne
    fun e he => ?_, hok, hhonest ∘ hsend⟩
  exact hno e (mem_append_right _ he)

theorem wp_doSend (left : ℕ) (h : s.Accounted) (hand : s.InHand m.id) :
    wp ok fates chk (doSend left m) s (Sent m s) := by
  induction left generalizing m s with
  | zero =>
    refine wp_doSendOnce h hand (fun _ _ _ hsent => hsent) ?_
    intro tr s' fallback hkept hflushes hhand hsend
    exact wp_mono (wp_refuseWith hkept.accounted hhand)
      fun _ _ _ hsent => hsent.trans hkept hflushes hsend
  | succ left ih =>
    refine wp_doSendOnce h hand (fun _ _ _ hsent => hsent) ?_
    intro tr s' fallback hkept hflushes hhand hsend
    cases fallback with
    | none => exact wp_mono (wp_refuseWith hkept.accounted hhand) fun _ _ _ hsent =>
        hsent.trans hkept hflushes hsend
    | some fb =>
      refine wp_mono (ih (m := { m with dstSlot := some fb }) hkept.accounted hhand)
        fun _ _ _ hsent => ?_
      exact Sent.trans (m := m) hkept hflushes hsend hsent

/-- The loop of dispatching. -/
theorem wp_dispatchLoop (slot : SlotId) (left : ℕ) :
    wp ok fates chk (dispatchLoop slot left) s fun _ s' _ => Tidy s s' := by
  refine wp_imp fun h => ?_
  cases left with
  | zero => exact ⟨.refl _ h, rfl⟩
  | succ left =>
    refine wp_atom_bind_of (fun _ => dequeue_dequeued s slot) fun s₁ next hdequeued _ => ?_
    cases next with
    | none =>
      cases hdequeued
      exact ⟨.refl _ h, rfl⟩
    | some m =>
      obtain ⟨hkept₁, hflushes₁, hoff, hand₁⟩ := hdequeued.kept h rfl
      refine wp_callback_bind.mpr fun s₂ abort htidy => ?_
      obtain ⟨hkept₂, hflushes₂⟩ := htidy hkept₁.accounted
      have hand₂ := hkept₂.inHand (Set.notMem_empty _) hand₁
      -- The message that was taken in hand is dealt with.
      have hrest : ∀ s₃, Kept {m.id} s₂ s₃ → s₃.flushes = s₂.flushes → s₃.Settled m.id → s₃.Honest m.id →
          Tidy s s₃ := fun s₃ hkept₃ hflushes₃ hgone hhonest _ =>
          ⟨(hkept₁.trans ((hkept₂.mono (Set.empty_subset _)).trans hkept₃)).dealt hoff
            hgone.not_inHand hhonest, hflushes₃.trans (hflushes₂.trans hflushes₁)⟩
      refine wp_ite.mpr ⟨fun _ => wp_atom_bind.mpr fun _ _ => ?_, fun _ => ?_⟩
      · obtain ⟨hkept₃, hgone, hhonest⟩ := Kept.of_final (.dropped m) hkept₂.accounted hand₂ rfl rfl
        exact wp_proc_bind.mpr
          fun _ s₄ _ hloop => (hrest _ hkept₃ rfl hgone (hhonest (by simp))).trans hloop h
      · refine wp_bind.mpr (wp_mono (wp_invokeHandler hkept₂.accounted hand₂) ?_)
        rintro tr s₃ rc ⟨hkept₃, hflushes₃, hgone, -, hhonest⟩
        have htidy₃ := hrest s₃ hkept₃ hflushes₃ hgone hhonest
        exact wp_ite.mpr ⟨fun _ => htidy₃ h, fun _ => wp_proc_bind.mpr
          fun _ s₄ _ hloop => htidy₃.trans hloop h⟩

variable {f : Flush} {outer : List Flush}

/-- The loop over the messages of an entry. -/
theorem wp_replay {e : HoldEntry} (h : s.Accounted) (hflushes : s.flushes = f :: outer)
    (hcur : f.cur = some e) : wp ok fates chk replay s fun _ s' _ =>
      Kept ∅ s s' ∧ s'.flushes = { f with cur := some { e with queue := [] } } :: outer := by
  refine wp_atom_bind_of (fun _ => holdDequeue_dequeued s) fun s₁ next hdequeued _ => ?_
  cases hdequeued with
  | empty hempty =>
    have hqueue := hempty f outer e hflushes hcur
    refine ⟨.refl _ h, hflushes.trans ?_⟩
    rw [← hqueue, ← hcur]
  | @taken f' outer' e' m queue hflushes' hcur' hqueue =>
    obtain ⟨rfl, rfl⟩ := List.cons.inj (hflushes.symm.trans hflushes')
    obtain rfl := Option.some.inj (hcur.symm.trans hcur')
    obtain ⟨hkept₁, hoff, hand₁, hsend₁⟩ := (HoldDequeued.taken hflushes hcur hqueue).kept h rfl
    refine wp_proc_bind.mpr fun tr₁ s₂ rc hsent => wp_proc.mpr fun tr₂ s₃ _ hreplay => ?_
    obtain ⟨hkept₂, hflushes₂, hgone, -, -, hhonest⟩ := hsent hkept₁.accounted hand₁
    obtain ⟨hkept₃, hflushes₃⟩ := hreplay hkept₂.accounted _ outer _ hflushes₂ rfl
    exact ⟨((hkept₁.trans hkept₂).dealt hoff hgone (hhonest hsend₁)).trans hkept₃, hflushes₃⟩

/-- An entry without messages is freed. -/
theorem freeEntry_kept {e : HoldEntry} (h : s.Accounted)
    (hflushes : s.flushes = { f with cur := some { e with queue := [] } } :: outer) :
    Kept ∅ s s.freeEntry ∧ s.freeEntry.flushes = { f with cur := none } :: outer := by
  have hfree : s.freeEntry = { s with flushes := { f with cur := none } :: outer } := by
    simp only [Ipc.freeEntry, hflushes]
  rw [hfree]
  refine ⟨.of_log h rfl rfl rfl rfl rfl ?_, rfl⟩
  simp [Ipc.waiting, hflushes, HoldEntry.items]

/-- The loop over the entries. -/
theorem wp_flushLoop (h : s.Accounted) (hflushes : s.flushes = f :: outer) (hcur : f.cur = none) :
    wp ok fates chk flushLoop s fun _ s' _ => Kept ∅ s s' ∧
      ∃ pp, s'.flushes = { f with pp } :: outer := by
  refine wp_atom_bind_of (fun _ => flushSeek_sought s) fun s₁ found hsought _ => ?_
  have hkept₁ := hsought.kept h fun f' outer' heq => (List.cons.inj (hflushes.symm.trans heq)).1 ▸ hcur
  cases hsought with
  | idle hnone =>
    rw [hflushes] at hnone
    cases hnone
  | fault => exact ⟨hkept₁, f.pp, hflushes⟩
  | @through f' outer' pp before passed hflushes' =>
    obtain ⟨rfl, rfl⟩ := List.cons.inj (hflushes.symm.trans hflushes')
    exact ⟨hkept₁, pp, rfl⟩
  | @found f' outer' pp before passed rest e hflushes' =>
    obtain ⟨rfl, rfl⟩ := List.cons.inj (hflushes.symm.trans hflushes')
    refine wp_proc_bind.mpr fun tr₂ s₂ _ hreplay => wp_atom_bind.mpr fun _ _ => wp_proc.mpr
      fun tr₄ s₄ _ hloop => ?_
    obtain ⟨hkept₂, hflushes₂⟩ := hreplay hkept₁.accounted _ outer e rfl rfl
    obtain ⟨hkept₃, hflushes₃⟩ := freeEntry_kept hkept₂.accounted hflushes₂
    obtain ⟨hkept₄, pp', hflushes₄⟩ := hloop hkept₃.accounted _ outer hflushes₃ rfl
    refine ⟨((hkept₁.trans hkept₂).trans hkept₃).trans hkept₄, pp', hflushes₄.trans ?_⟩
    rw [hcur]

/-- Flushing a slot. -/
theorem wp_nxIpcFlushHoldQueue (dst : Option SlotId) :
    wp ok fates chk (nxIpcFlushHoldQueue dst) s fun _ s' _ => Tidy s s' := by
  refine wp_imp fun h => ?_
  cases dst with
  | none => exact ⟨.refl _ h, rfl⟩
  | some t =>
    refine wp_atom_bind.mpr fun _ _ => wp_proc_bind.mpr fun tr₂ s₂ _ hloop =>
      (wp_atom_bind (k := pure)).mpr fun _ _ => ?_
    have hkept₁ : Kept ∅ s { s with flushes := { dst := t } :: s.flushes } :=
      .of_log h rfl rfl rfl rfl rfl (.refl _)
    obtain ⟨hkept₂, pp, hflushes₂⟩ := hloop hkept₁.accounted _ s.flushes rfl rfl
    have hkept₃ : Kept ∅ s₂ { s₂ with flushes := s₂.flushes.tail } := by
      refine .of_log hkept₂.accounted rfl rfl rfl rfl rfl ?_
      simp [Ipc.waiting, hflushes₂]
    exact ⟨(hkept₁.trans hkept₂).trans hkept₃, congrArg List.tail hflushes₂⟩

/-- A new message is in hand. -/
theorem message_kept (h : s.Accounted) :
    Kept {s.nextMessage} s { s with nextMessage := s.nextMessage + 1 } ∧ ¬ s.Off s.nextMessage ∧
      { s with nextMessage := s.nextMessage + 1 }.InHand s.nextMessage ∧ s.Sendable s.nextMessage := by
  have hnew : ∀ ev ∈ s.log, ev.about ≠ some s.nextMessage :=
    fun ev hev habout => lt_irrefl _ (h.old ev hev _ habout)
  have hnone : ∀ ev, s.last s.nextMessage ≠ some ev := fun ev hlast =>
    hnew ev (mem_of_lastAbout hlast) (about_of_lastAbout hlast)
  refine ⟨⟨{ h with old := ?_ }, id, List.Subset.refl _, Nat.le_succ _, fun _ _ _ => rfl,
    fun id hid hand => ⟨⟨?_, hand.1.2⟩, hand.2⟩, fun _ _ _ hsend => hsend, fun _ _ hhonest => hhonest⟩,
    fun hoff => lt_irrefl _ hoff.1,
    ⟨⟨Nat.lt_succ_self _, fun ev hlast => absurd hlast (hnone ev)⟩,
      fun ev hlast => absurd hlast (hnone ev)⟩,
    fun ⟨ev, hev, habout, _⟩ => absurd habout (hnew ev hev)⟩
  · exact fun ev hev id hid => (h.old ev hev id hid).trans (Nat.lt_succ_self _)
  · exact lt_of_le_of_ne (Nat.lt_succ_iff.mp hand.1.1) hid

/-- Sending a message of one's own. -/
theorem wp_send (src dst : Option SlotId) (caps : List IpcCap) :
    wp ok fates chk (IpcCall.send src dst caps).prog s fun _ s' _ => Tidy s s' := by
  refine wp_imp fun h => ?_
  refine wp_atom_bind.mpr fun _ _ => wp_proc_bind.mpr fun tr₂ s₂ rc hsent => wp_atom_bind.mpr
    fun _ _ => ?_
  obtain ⟨hkept₁, hoff, hand₁, hsend⟩ := message_kept h
  obtain ⟨hkept₂, hflushes₂, hgone, -, hok, hhonest⟩ := hsent hkept₁.accounted hand₁
  have hkept₃ : Kept ∅ s₂ (s₂.tell (.told ⟨s.nextMessage, src, dst, caps⟩ rc)) := by
    refine .of_same hkept₂.accounted rfl (fun ev hev => ?_) (fun m hm => ?_) rfl rfl rfl rfl (.refl _)
    · rw [mem_singleton.mp hev]
      rfl
    · obtain ⟨rfl, rfl⟩ := IpcEvent.told.inj (mem_singleton.mp hm)
      exact hok rfl
  exact ⟨((hkept₁.trans hkept₂).dealt hoff hgone (hhonest hsend)).trans hkept₃, hflushes₂⟩

/-- **Every function of the router keeps the contract.** -/
theorem fates_kept : fates.Kept ok where
  body := by
    intro chk f s
    have hkeeps : ∀ {α : Type} {p : IpcM α}, Prog.All (Keeps ok fates chk Tidy) p →
        wp ok fates chk p s fun _ s' _ => Tidy s s' :=
      fun hall => wp_of_keeps Tidy.refl (fun _ _ _ => Tidy.trans) hall s
    have hcallback : ∀ c, Keeps ok fates chk Tidy (.callback c) := fun c s s' htidy => htidy
    cases f with
    | api call =>
      have hflush : ∀ dst, Keeps ok fates chk Tidy (.proc (.nxIpcFlushHoldQueue dst)) :=
        fun dst s tr s' r htidy => htidy
      have hdispatch : ∀ slot max, Keeps ok fates chk Tidy (.proc (.nxIpcDispatch slot max)) :=
        fun slot max s tr s' r htidy => htidy
      have hreg : ∀ call, Keeps ok fates chk Tidy (.proc (.reg call)) :=
        fun call s tr s' r htidy => htidy
      by_cases hsend : ∀ src dst caps, call ≠ .send src dst caps
      · exact hkeeps (Prog.all_op (keeps_aside _ rfl) fun _ =>
          all_prog keeps_aside hcallback hdispatch hflush hreg call hsend)
      · push Not at hsend
        obtain ⟨src, dst, caps, rfl⟩ := hsend
        refine wp_atom_bind.mpr fun answer _ => wp_mono (wp_send src dst caps) fun _ _ _ htidy => ?_
        exact (tidy_aside (a := .enter (.send src dst caps)) rfl answer).trans htidy
    | reg call => exact hkeeps (all_regCallEmit hcallback (keeps_reg call))
    | nxIpcSend m => exact wp_imp fun h => wp_imp fun hand => wp_doSend _ h hand
    | nxIpcDispatch slot max =>
      exact hkeeps (all_nxIpcDispatch (keeps_aside _ rfl) (fun slot left s tr s' r htidy => htidy)
        slot max)
    | dispatchLoop slot left => exact wp_dispatchLoop slot left
    | nxIpcFlushHoldQueue dst => exact wp_nxIpcFlushHoldQueue dst
    | flushLoop =>
      exact wp_imp fun h => wp_forall fun f => wp_forall fun outer => wp_imp fun hflushes => wp_imp
        fun hcur =>
        wp_flushLoop h hflushes hcur
    | replay =>
      exact wp_imp fun h => wp_forall fun f => wp_forall fun outer => wp_forall fun e => wp_imp
        fun hflushes =>
        wp_imp fun hcur => wp_replay h hflushes hcur
  exported := by
    rintro - ⟨call, rfl⟩ s tr s' r h
    exact h
  refl := Tidy.refl
  trans _ _ _ := Tidy.trans

end Bodies

end Nonux.Framework
