import Nonux.Lib.Ring
import Nonux.Framework.Registry

/-!
# The change log (`framework/registry.c`)

Every change of the component graph has a generation and leaves an event in a log, a ring that keeps
the last 256. Who wants to follow the changes reads the log page by page, each time from the
generation on that was read last.

A change may lead to others before it returns: subscribers are called with the event, and may change
the graph themselves. `Mutation` is such a change with those that its callbacks make. A `LogReader`
follows the log while it grows.

## What is proved

* `RegCall.next_of_emits`: a change that emits its event raises the generation by one and appends
  one event.
* `nxChangeLogRead_ofEvents`: a page is the first part of the retained events that are newer.
* `LogReader.follows_log`: what a reader gets in any run of changes and reads.
-/

namespace Nonux.Framework

open Nonux.Lib List Registry

/-! ### The ring -/

/-- An entry of the log: the generation and the event. -/
abbrev LogEntry := ℕ × GraphEvent

/-- `NX_CHANGE_LOG_CAPACITY` -/
def nxChangeLogCapacity : ℕ := 256

/-- `g_log_ring` and `g_log_total`. -/
structure ChangeLog where
  ring : ℕ → LogEntry := fun _ => (0, .slotCreated none)
  total : ℕ := 0

namespace ChangeLog

/-- `change_log_append` -/
def changeLogAppend (l : ChangeLog) (ev : LogEntry) : ChangeLog where
  ring := Function.update l.ring (l.total % nxChangeLogCapacity) ev
  total := l.total + 1

/-- `nx_change_log_size` -/
def nxChangeLogSize (l : ChangeLog) : ℕ :=
  if l.total < nxChangeLogCapacity then l.total else nxChangeLogCapacity

/-- The loop of `nx_change_log_read`, with so many events still to go. -/
def readLoop (l : ChangeLog) (sinceGen max : ℕ) : ℕ → ℕ → List LogEntry → List LogEntry
  | 0, _, out => out
  | k + 1, i, out =>
    if out.length < max then
      let ev := l.ring (i % nxChangeLogCapacity)
      readLoop l sinceGen max k (i + 1) (if ev.1 > sinceGen then out ++ [ev] else out)
    else out

/-- `nx_change_log_read`, into a buffer of so many events. -/
def nxChangeLogRead (l : ChangeLog) (sinceGen max : ℕ) : List LogEntry :=
  if max = 0 then []
  else
    let held := l.nxChangeLogSize
    readLoop l sinceGen max held (l.total - held) []

/-- The ring after the events were appended one by one. -/
def ofEvents (log : List LogEntry) : ChangeLog := log.foldl changeLogAppend {}

variable (log : List LogEntry)

theorem ofEvents_append_singleton (ev : LogEntry) :
    ofEvents (log ++ [ev]) = (ofEvents log).changeLogAppend ev := by
  rw [ofEvents, foldl_append]
  rfl

theorem total_ofEvents : (ofEvents log).total = log.length := by
  induction log using List.reverseRecOn with
  | nil => rfl
  | append_singleton log ev ih => rw [ofEvents_append_singleton, changeLogAppend, ih, length_append,
      length_singleton]

/-- The last 256 events are in the ring. -/
theorem ring_ofEvents {i : ℕ} (hlt : i < log.length) (hkept : log.length ≤ i + nxChangeLogCapacity) :
    (ofEvents log).ring (i % nxChangeLogCapacity) = log[i] := by
  induction log using List.reverseRecOn with
  | nil => simp at hlt
  | append_singleton log ev ih =>
    rw [ofEvents_append_singleton, changeLogAppend, total_ofEvents]
    rw [length_append, length_singleton] at hlt hkept
    by_cases hlast : i = log.length
    · subst hlast
      simp
    · -- Another place than the one that is written.
      have hi : i < log.length := by omega
      have hne : (i + 0) % nxChangeLogCapacity ≠ (i + (log.length - i)) % nxChangeLogCapacity :=
        Ring.mod_ne (by omega) (by omega)
      rw [Nat.add_zero, Nat.add_sub_cancel' hi.le] at hne
      dsimp only
      rw [Function.update_of_ne hne, ih hi (by omega), getElem_append_left hi]

/-- The loop goes through the rest of the log, until the buffer is full. -/
theorem readLoop_ofEvents (sinceGen max : ℕ) {k i : ℕ} (hki : i + k = log.length)
    (hkept : k ≤ nxChangeLogCapacity) {out : List LogEntry} (hout : out.length ≤ max) :
    readLoop (ofEvents log) sinceGen max k i out =
      (out ++ (log.drop i).filter fun ev => sinceGen < ev.1).take max := by
  induction k generalizing i out with
  | zero =>
    rw [drop_eq_nil_of_le (by omega), filter_nil, append_nil, take_of_length_le hout]
    rfl
  | succ k ih =>
    have hi : i < log.length := by omega
    rw [readLoop]
    by_cases hfull : out.length < max
    · rw [if_pos hfull, ring_ofEvents log hi (by omega), drop_eq_getElem_cons hi, filter_cons]
      dsimp only
      by_cases hnew : log[i].1 > sinceGen
      · rw [if_pos hnew, ih (by omega) (by omega) (by simpa using hfull),
          if_pos (by simpa using hnew), append_assoc]
        rfl
      · rw [if_neg hnew, ih (by omega) (by omega) hout, if_neg (by simpa using hnew)]
    · rw [if_neg hfull, take_append_of_le_length (by omega), take_of_length_le hout]

/-- The events that are still in the ring. -/
def retained (log : List LogEntry) : List LogEntry := log.drop (log.length - nxChangeLogCapacity)

/-- **A page**: of the events that are still in the ring and newer, the first ones. -/
theorem nxChangeLogRead_ofEvents (sinceGen max : ℕ) :
    nxChangeLogRead (ofEvents log) sinceGen max =
      ((retained log).filter fun ev => sinceGen < ev.1).take max := by
  unfold nxChangeLogRead
  split_ifs with hmax
  · rw [hmax, take_zero]
  · have hsize : nxChangeLogSize (ofEvents log) = min log.length nxChangeLogCapacity := by
      rw [nxChangeLogSize, total_ofEvents]
      split_ifs <;> omega
    have hstart : log.length - min log.length nxChangeLogCapacity =
      log.length - nxChangeLogCapacity := by omega
    dsimp only
    rw [hsize, total_ofEvents, readLoop_ofEvents log sinceGen max (by omega) (by omega)
      (Nat.zero_le _), nil_append, hstart, retained]

end ChangeLog

/-! ### Changes and their events -/

/-- The calls that leave no event. -/
def RegCall.Silent : RegCall → Prop
  | .slotSetFallback .. | .slotSetPauseState .. => True
  | _ => False

instance : DecidablePred RegCall.Silent
  | .slotSetFallback .. | .slotSetPauseState .. => inferInstanceAs (Decidable True)
  | .slotRegister .. | .slotSwap .. | .slotUnregister .. | .componentRegister
      .. | .componentUnregister ..
  | .componentStateSet .. | .connectionRegister .. | .connectionRetune .. | .connectionUnregister .. =>
    inferInstanceAs (Decidable False)

/-- The call succeeds and emits its event. -/
def RegCall.Emits (r : Registry) (call : RegCall) : Prop := (call.apply r).2 = .ok () ∧ ¬ call.Silent

instance (r : Registry) (call : RegCall) : Decidable (call.Emits r) :=
  inferInstanceAs (Decidable (_ ∧ _))

/-- The generation has gone up by one, and an event with it was appended. -/
def Registry.Advances (r r' : Registry) : Prop :=
  r'.generation = r.generation + 1 ∧ ∃ ev, r'.log = r.log ++ [(r.generation + 1, ev)]

/-! ### The names in the events -/

/-- A pointer to a name in an event. -/
inductive NamePtr where
  /-- The name of a slot. That of a task's slot is in the memory of the task, which is the
  allocation of this number. -/
  | slotName (s : SlotId) (alloc : Option ℕ)
  | manifestId (c : CompId)
  | instanceId (c : CompId)
  deriving DecidableEq, Repr

/-- The string, as long as it is there. -/
def NamePtr.text (r : Registry) : NamePtr → Option String
  | .slotName s _ => (r.slot s).name
  | .manifestId c => (r.comp c).manifestId
  | .instanceId c => (r.comp c).instanceId

/-- The names that an event shows, NULL among them. -/
def GraphEvent.names : GraphEvent → List (Option String)
  | .slotCreated name | .slotDestroyed name => [name]
  | .slotSwapped slotName oldManifest oldInstance newManifest newInstance =>
    [slotName, oldManifest, oldInstance, newManifest, newInstance]
  | .componentRegistered manifestId instanceId | .componentUnregistered manifestId instanceId
  | .componentState manifestId instanceId _ _ => [manifestId, instanceId]
  | .connectionAdded fromSlot toSlot _ _ | .connectionRemoved fromSlot toSlot _ _
  | .connectionRetuned fromSlot toSlot _ _ => [fromSlot, toSlot]

/-- The pointers in the event of a call. `alloc` says which slots are parts of tasks. -/
def RegCall.namePtrs (r : Registry) (alloc : SlotId → Option ℕ) : RegCall → List (Option NamePtr)
  | .slotRegister s _ | .slotUnregister s => [s.map fun s => .slotName s (alloc s)]
  | .slotSwap s newImpl =>
    let oldImpl := s.bind fun s => (r.slot s).active
    [s.map fun s => .slotName s (alloc s), oldImpl.map .manifestId, oldImpl.map .instanceId,
      newImpl.map .manifestId, newImpl.map .instanceId]
  | .connectionRegister fromSlot toSlot _ _ _ _ _ =>
    [fromSlot.map fun s => .slotName s (alloc s), toSlot.map fun s => .slotName s (alloc s)]
  | .connectionRetune c _ _ | .connectionUnregister c =>
    [(c.bind fun c => (r.conn c).fromSlot).map fun s => .slotName s (alloc s),
      c.map fun c => .slotName (r.conn c).toSlot (alloc (r.conn c).toSlot)]
  | .componentRegister c _ | .componentUnregister c | .componentStateSet c
      _ => [c.map .manifestId, c.map .instanceId]
  | .slotSetFallback .. | .slotSetPauseState .. => []

/-- A call that emits its event raises the generation, and the names that the event shows are the
strings at the pointers. -/
theorem RegCall.event_names {r : Registry} {call : RegCall} (h : call.Emits r)
    (alloc : SlotId → Option ℕ) :
    (call.next r).generation = r.generation + 1 ∧
    ∃ ev, (call.next r).log = r.log ++ [(r.generation + 1, ev)] ∧
      ev.names = (call.namePtrs r alloc).map fun p => p.bind (·.text r) := by
  obtain ⟨hok, hloud⟩ := h
  unfold RegCall.next
  revert hok
  cases call with
  | slotSetFallback s fallback | slotSetPauseState s st => exact absurd trivial hloud
  | _ =>
    -- Every other call ends with `bump_gen` and `emit_event`, or with an error.
    simp only [RegCall.apply, nxSlotRegister, nxSlotSwap, nxSlotUnregister,
      nxComponentRegister, nxComponentUnregister, nxComponentStateSet,
      nxConnectionRegister, nxConnectionRetune, nxConnectionUnregister]
    repeat' split
    all_goals first
      | (intro h; cases h; done)
      | (refine fun _ => ⟨rfl, _, rfl, ?_⟩
         simp [GraphEvent.names, RegCall.namePtrs, NamePtr.text, modifySlot, modifyConn,
          modifyComp, bumpGen, slotName, slotAddIncoming, slotAddOutgoing,
          slotRemoveIncoming, slotRemoveOutgoing, Option.bind_map])

theorem RegCall.next_of_emits {r : Registry} {call : RegCall} (h : call.Emits r) :
    r.Advances (call.next r) := by
  obtain ⟨hgen, ev, hlog, -⟩ := RegCall.event_names h fun _ => none
  exact ⟨hgen, ev, hlog⟩

/-- Otherwise the generation and the log stay as they are. -/
theorem RegCall.next_of_not_emits {r : Registry} {call : RegCall} (h : ¬ call.Emits r) :
    (call.next r).generation = r.generation ∧ (call.next r).log = r.log := by
  rcases call.outcome r with ⟨e, heq⟩ | ⟨hok, heffect⟩
  · rw [RegCall.next, heq]
    exact ⟨rfl, rfl⟩
  · have hsilent : call.Silent := by_contra fun hloud => h ⟨hok, hloud⟩
    rw [RegCall.next]
    generalize (call.apply r).1 = r' at heffect
    cases heffect with
    | slotSetFallback | slotSetPauseState => exact ⟨rfl, rfl⟩
    | _ => exact absurd hsilent id

/-! ### Changes made in callbacks -/

/-- A change, and those that are made before it returns, by the subscribers that its event is shown
to. -/
inductive Mutation where
  | mk (call : RegCall) (inside : List Mutation)

mutual

/-- The change: first the call itself, with its event, and then what the callbacks do. Without an
event there are none. -/
def Mutation.run (r : Registry) : Mutation → Registry
  | .mk call inside => if call.Emits r then Mutation.runAll (call.next r) inside else call.next r

/-- One change after the other. -/
def Mutation.runAll (r : Registry) : List Mutation → Registry
  | [] => r
  | m :: ms => Mutation.runAll (m.run r) ms

end

mutual

/-- What every call keeps, a change keeps with all that is made inside. -/
theorem Mutation.run_inv {I : Registry → Prop} (hstep : ∀ r (call : RegCall), I r → I (call.next r))
    {r : Registry} (h : I r) : ∀ m : Mutation, I (m.run r)
  | .mk call inside => by
    rw [Mutation.run]
    split_ifs
    · exact Mutation.runAll_inv hstep (hstep r call h) inside
    · exact hstep r call h

theorem Mutation.runAll_inv {I : Registry → Prop}
    (hstep : ∀ r (call : RegCall), I r → I (call.next r)) {r : Registry} (h : I r) :
    ∀ ms : List Mutation, I (Mutation.runAll r ms)
  | [] => h
  | m :: ms => Mutation.runAll_inv hstep (Mutation.run_inv hstep h m) ms

end

/-! ### The order of the log -/

namespace Registry

/-- The log is in the order of the generations, which have come as far as the registry's. -/
structure LogOk (r : Registry) : Prop where
  sorted : r.log.Pairwise fun a b => a.1 < b.1
  le : ∀ ev ∈ r.log, ev.1 ≤ r.generation

/-- The log has grown by events of later generations. -/
structure Grows (r r' : Registry) : Prop where
  le : r.generation ≤ r'.generation
  log : ∃ new, r'.log = r.log ++ new ∧ ∀ ev ∈ new, r.generation < ev.1

theorem LogOk.next {r : Registry} (h : LogOk r) (call : RegCall) : LogOk (call.next r) := by
  by_cases hemits : call.Emits r
  · obtain ⟨hgen, ev, hlog⟩ := RegCall.next_of_emits hemits
    refine ⟨?_, ?_⟩
    · rw [hlog, pairwise_append]
      refine ⟨h.sorted, pairwise_singleton _ _, fun a ha b hb => ?_⟩
      rw [mem_singleton.1 hb]
      exact Nat.lt_succ_of_le (h.le a ha)
    · intro a ha
      rw [hlog, mem_append, mem_singleton] at ha
      rw [hgen]
      rcases ha with ha | rfl
      · exact (h.le a ha).trans (Nat.le_succ _)
      · exact le_rfl
  · obtain ⟨hgen, hlog⟩ := RegCall.next_of_not_emits hemits
    exact ⟨hlog ▸ h.sorted, fun a ha => hgen ▸ h.le a (hlog ▸ ha)⟩

theorem Grows.refl (r : Registry) : Grows r r := ⟨le_rfl, [], (append_nil _).symm, by simp⟩

theorem Grows.next {r r' : Registry} (h : Grows r r') (call : RegCall) : Grows r (call.next r') := by
  obtain ⟨hle, new, hlog, hnew⟩ := h
  by_cases hemits : call.Emits r'
  · obtain ⟨hgen, ev, hlog'⟩ := RegCall.next_of_emits hemits
    refine ⟨by omega, new ++ [(r'.generation + 1, ev)], by rw [hlog', hlog, append_assoc], fun a ha => ?_⟩
    rw [mem_append, mem_singleton] at ha
    rcases ha with ha | rfl
    · exact hnew a ha
    · exact Nat.lt_succ_of_le hle
  · obtain ⟨hgen, hlog'⟩ := RegCall.next_of_not_emits hemits
    exact ⟨hgen ▸ hle, new, hlog'.trans hlog, hnew⟩

/-- What is retained later and is not new was retained before. -/
theorem Grows.retained {r r' : Registry} (h : Grows r r') {ev : LogEntry}
    (hev : ev ∈ ChangeLog.retained r'.log) (hold : ev.1 ≤ r.generation) :
    ev ∈ ChangeLog.retained r.log := by
  obtain ⟨-, new, hlog, hnew⟩ := h
  rw [ChangeLog.retained, hlog, drop_append, mem_append] at hev
  rcases hev with hev | hev
  · refine drop_subset_drop_left _ ?_ hev
    rw [length_append]
    omega
  · exact absurd (hnew ev (mem_of_mem_drop hev)) (not_lt.2 hold)

end Registry

/-! ### Following the log -/

/-- Somebody who follows the log: the generation read last, and all that was read. -/
structure LogReader where
  reg : Registry
  since : ℕ
  out : List LogEntry := []

/-- The graph is changed, or a page of the log is read. -/
inductive LogStep where
  | mutate (m : Mutation)
  | read (max : ℕ)

namespace LogReader

/-- The page that is read next. -/
def page (s : LogReader) (max : ℕ) : List LogEntry :=
  (ChangeLog.ofEvents s.reg.log).nxChangeLogRead s.since max

def step (s : LogReader) : LogStep → LogReader
  | .mutate m => { s with reg := m.run s.reg }
  | .read max =>
    { s with out := s.out ++ s.page max, since := ((s.page max).getLast?.map Prod.fst).getD s.since }

/-- The retained events that are still to be read. -/
def newer (s : LogReader) : List LogEntry :=
  (ChangeLog.retained s.reg.log).filter fun ev => s.since < ev.1

theorem page_eq (s : LogReader) (max : ℕ) : s.page max = s.newer.take max :=
  ChangeLog.nxChangeLogRead_ofEvents _ _ _

theorem mem_newer {s : LogReader} {ev : LogEntry} :
    ev ∈ s.newer ↔ ev ∈ ChangeLog.retained s.reg.log ∧ s.since < ev.1 := by
  simp [newer]

theorem newer_sorted {s : LogReader} (h : s.reg.LogOk) : s.newer.Pairwise fun a b => a.1 < b.1 :=
  h.sorted.sublist (filter_sublist.trans (drop_sublist _ _))

/-- The generation that was read last lies between the page and the rest. -/
theorem since_read {s : LogReader} (h : s.reg.LogOk) (max : ℕ) :
    s.since ≤ (s.step (.read max)).since ∧ (∀ ev ∈ s.newer.take max, ev.1 ≤ (s.step (.read max)).since) ∧
      (∀ ev ∈ s.newer.drop max, (s.step (.read max)).since < ev.1) ∧
        ((s.step (.read max)).since = s.since ∨ ∃ ev ∈ s.newer.take max,
          ev.1 = (s.step (.read max)).since) := by
  have hsorted := newer_sorted h
  rw [← take_append_drop max s.newer, pairwise_append] at hsorted
  obtain ⟨htake, -, hcross⟩ := hsorted
  simp only [step, page_eq]
  rcases eq_nil_or_concat (s.newer.take max) with hnil | ⟨init, last, hpage⟩
  · rw [hnil]
    exact ⟨le_rfl, by simp, fun ev hev => (mem_newer.1 (mem_of_mem_drop hev)).2, .inl rfl⟩
  · rw [concat_eq_append] at hpage
    have hlast : last ∈ s.newer.take max := by simp [hpage]
    rw [hpage, pairwise_append] at htake
    have hsince : (((s.newer.take max).getLast?.map Prod.fst).getD s.since) = last.1 := by simp [hpage]
    rw [hsince]
    refine ⟨(mem_newer.1 (mem_of_mem_take hlast)).2.le, fun ev hev => ?_,
      fun ev hev => hcross last hlast ev hev, .inr ⟨last, hlast, rfl⟩⟩
    rw [hpage, mem_append, mem_singleton] at hev
    rcases hev with hev | rfl
    · exact (htake.2.2 ev hev last (mem_singleton_self _)).le
    · exact le_rfl

/-- A page is taken off what is still to be read. -/
theorem newer_read {s : LogReader} (h : s.reg.LogOk) (max : ℕ) :
    (s.step (.read max)).newer = s.newer.drop max := by
  obtain ⟨hle, htake, hdrop, -⟩ := since_read h max
  generalize hs : (s.step (.read max)).since = since' at hle htake hdrop
  have hfilter : (s.step (.read max)).newer = s.newer.filter fun ev => since' < ev.1 := by
    rw [newer, newer, filter_filter, hs]
    refine filter_congr fun ev _ => ?_
    rw [← Bool.decide_and]
    exact decide_eq_decide.2 ⟨fun hlt => ⟨hlt, hle.trans_lt hlt⟩, And.left⟩
  rw [hfilter]
  nth_rewrite 1 [← take_append_drop max s.newer]
  rw [filter_append, filter_eq_nil_iff.2 fun ev hev => by simpa using htake ev hev,
    filter_eq_self.2 fun ev hev => by simpa using hdrop ev hev, nil_append]

/-- The reader has read, in order, what it could read of the events after `g₀`. -/
structure Follows (g₀ : ℕ) (s : LogReader) : Prop where
  logOk : s.reg.LogOk
  sorted : s.out.Pairwise fun a b => a.1 < b.1
  mem : ∀ ev ∈ s.out, ev ∈ s.reg.log ∧ g₀ < ev.1 ∧ ev.1 ≤ s.since
  le : g₀ ≤ s.since
  since : s.since = g₀ ∨ s.since ≤ s.reg.generation
  seen : ∀ ev ∈ ChangeLog.retained s.reg.log, g₀ < ev.1 → ev.1 ≤ s.since → ev ∈ s.out

variable {g₀ : ℕ} {s : LogReader}

theorem Follows.mutate (h : Follows g₀ s) (m : Mutation) : Follows g₀ (s.step (.mutate m)) := by
  have hgrows : s.reg.Grows (m.run s.reg) := m.run_inv (fun _ call hr => hr.next call) (.refl _)
  refine ⟨m.run_inv (fun _ call hr => hr.next call) h.logOk, h.sorted, fun ev hev => ?_, h.le, ?_,
    fun ev hev hlt hle => ?_⟩
  · obtain ⟨new, hlog, -⟩ := hgrows.log
    have hmem : ev ∈ (m.run s.reg).log := by
      rw [hlog]
      exact mem_append_left _ (h.mem ev hev).1
    exact ⟨hmem, (h.mem ev hev).2⟩
  · exact h.since.imp_right fun hle => hle.trans hgrows.le
  · -- An event up to the generation read last is no new one.
    rcases h.since with hsince | hsince
    · exact absurd hle (by simp only [step, hsince]; omega)
    · exact h.seen ev (hgrows.retained hev (hle.trans hsince)) hlt hle

theorem Follows.read (h : Follows g₀ s) (max : ℕ) : Follows g₀ (s.step (.read max)) := by
  obtain ⟨hle, htake, hdrop, hcases⟩ := since_read h.logOk max
  have hout : (s.step (.read max)).out = s.out ++ s.newer.take max := by rw [step, page_eq]
  have hnewer : ∀ ev ∈ s.newer.take max, ev ∈ ChangeLog.retained s.reg.log ∧ s.since < ev.1 :=
    fun ev hev =>
    mem_newer.1 (mem_of_mem_take hev)
  refine ⟨h.logOk, ?_, ?_, h.le.trans hle, ?_, ?_⟩
  · rw [hout, pairwise_append]
    exact ⟨h.sorted, (newer_sorted h.logOk).sublist (take_sublist _ _),
      fun a ha b hb => (h.mem a ha).2.2.trans_lt (hnewer b hb).2⟩
  · intro ev hev
    rw [hout, mem_append] at hev
    rcases hev with hev | hev
    · obtain ⟨hlog, hlt, hsince⟩ := h.mem ev hev
      exact ⟨hlog, hlt, hsince.trans hle⟩
    · exact ⟨mem_of_mem_drop (hnewer ev hev).1, h.le.trans_lt (hnewer ev hev).2, htake ev hev⟩
  · rcases hcases with hsame | ⟨ev, hev, hlast⟩
    · rw [hsame]
      exact h.since
    · rw [← hlast]
      exact .inr (h.logOk.le ev (mem_of_mem_drop (hnewer ev hev).1))
  · intro ev hev hlt hsince
    rw [hout, mem_append]
    by_cases hold : ev.1 ≤ s.since
    · exact .inl (h.seen ev hev hlt hold)
    · have hmem : ev ∈ s.newer := mem_newer.2 ⟨hev, not_le.1 hold⟩
      rw [← take_append_drop max s.newer, mem_append] at hmem
      exact .inr (hmem.resolve_right fun hrest => (hdrop ev hrest).not_ge hsince)

theorem Follows.step (h : Follows g₀ s) (a : LogStep) : Follows g₀ (s.step a) := by
  cases a with
  | mutate m => exact h.mutate m
  | read max => exact h.read max

theorem follows_boot (slot : SlotId → Slot) (comp : CompId → Component) (g₀ : ℕ) :
    Follows g₀ { reg := bootRegistry slot comp, since := g₀ } :=
  ⟨⟨List.Pairwise.nil, by simp [bootRegistry]⟩, List.Pairwise.nil, by simp, le_rfl, .inl rfl,
    fun _ _ hlt hle => absurd hle (not_le.2 hlt)⟩

/-- Reading alone: the pages are taken off what is to be read. -/
theorem newer_reads (h : Follows g₀ s) (pages : List ℕ) :
    (runFrom LogReader.step s (pages.map .read)).newer = s.newer.drop pages.sum ∧
      (runFrom LogReader.step s (pages.map .read)).reg = s.reg := by
  induction pages generalizing s with
  | nil => exact ⟨rfl, rfl⟩
  | cons max pages ih =>
    obtain ⟨hnewer, hreg⟩ := ih (h.read max)
    rw [map_cons, runFrom_cons]
    refine ⟨?_, hreg⟩
    rw [hnewer, newer_read h.logOk, drop_drop, sum_cons]

/-- **Following the log.** A call that emits its event raises the generation by one and appends one
event, with the new generation. In any run of changes, also such that are made in callbacks, and of
reads, the log is in strict order of the generations, and what was read is strictly in order, hence
without repetition, and from the log after `g₀`; no retained event was passed over. With as many
further pages as there are retained events, of any sizes but 0, every one of them after `g₀` has
been read. -/
theorem follows_log (slot : SlotId → Slot) (comp : CompId → Component) (g₀ : ℕ) (steps : List LogStep) :
    (∀ (r : Registry) (call : RegCall), call.Emits r → r.Advances (call.next r)) ∧
      let s := runFrom LogReader.step { reg := bootRegistry slot comp, since := g₀ } steps
      s.reg.log.Pairwise (fun a b => a.1 < b.1) ∧ s.out.Pairwise (fun a b => a.1 < b.1) ∧
        (∀ ev ∈ s.out, ev ∈ s.reg.log ∧ g₀ < ev.1) ∧
        (∀ ev ∈ ChangeLog.retained s.reg.log, g₀ < ev.1 → ev.1 ≤ s.since → ev ∈ s.out) ∧
        ∀ pages : List ℕ, (∀ max ∈ pages, 1 ≤ max) →
        (ChangeLog.retained s.reg.log).length ≤ pages.length →
          ∀ ev ∈ ChangeLog.retained s.reg.log, g₀ < ev.1 →
            ev ∈ (runFrom LogReader.step s (pages.map .read)).out := by
  refine ⟨fun r call h => RegCall.next_of_emits h, ?_⟩
  intro s
  have h : Follows g₀ s := runFrom_inv (Follows g₀) (fun _ a hs => hs.step a)
    (follows_boot slot comp g₀) steps
  refine ⟨h.logOk.sorted, h.sorted, fun ev hev => ⟨(h.mem ev hev).1, (h.mem ev hev).2.1⟩, h.seen, ?_⟩
  intro pages hpages hlen ev hev hlt
  obtain ⟨hnewer, hreg⟩ := newer_reads h pages
  have h' : Follows g₀ (runFrom LogReader.step s (pages.map .read)) :=
    runFrom_inv (Follows g₀) (fun _ a hs => hs.step a) h _
  -- Each page takes one event at least.
  have hsum : pages.length ≤ pages.sum := by
    simpa using card_nsmul_le_sum pages 1 hpages
  have hrest : s.newer.drop pages.sum = [] := by
    refine drop_eq_nil_of_le (le_trans ?_ (hlen.trans hsum))
    exact length_filter_le _ _
  rw [hrest] at hnewer
  refine h'.seen ev (hreg ▸ hev) hlt (not_lt.1 fun hgt => ?_)
  have hmem := mem_newer.2 ⟨hreg.symm ▸ hev, hgt⟩
  rw [hnewer] at hmem
  exact not_mem_nil hmem

end LogReader

end Nonux.Framework
