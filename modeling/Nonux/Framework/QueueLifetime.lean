import Nonux.Framework.GraphPointers
import Nonux.Framework.SendSafety

/-!
# Queues and the slots they belong to

Inboxes and hold queues are found by the address of a slot, in lists that the registry knows nothing
of. A slot that is unregistered leaves its queues behind (`unregister_leaves_inbox`): whoever
registers a slot at the same address later gets the messages that were meant for the old one.

Nothing refers to a slot that is not registered as long as slots are only unregistered when nothing
refers to them (`unregistered_unreferred`): a message gets on a queue only over a connection, and
only with references to slots that its sender has a connection to, and connections have registered
ends.
-/

namespace Nonux.Framework

open Nonux.Lib CallSys List

open IpcM (callback)

/-- A message comes from a slot, goes to it, or carries a reference to it. -/
def IpcMessage.Mentions (m : IpcMessage) (t : SlotId) : Prop :=
  m.srcSlot = some t ∨ m.dstSlot = some t ∨ ∃ cap ∈ m.caps, cap.kind = .slotRef ∧ cap.slotRef = some t

/-- Something in a queue refers to a slot, or a queue is that of the slot. -/
inductive Ipc.Refers (s : Ipc) (t : SlotId) : Prop
  | inbox {slot : SlotId} {m : IpcMessage} (hm : m ∈ s.inboxOf slot) (h : slot = t ∨ m.Mentions t)
  | held {src dst : SlotId} {m : IpcMessage} (hm : (src, dst, m) ∈ s.waiting)
      (h : src = t ∨ dst = t ∨ m.Mentions t)
  | entry {e : HoldEntry} (he : e ∈ s.holds) (h : e.src = t ∨ e.dst = t)

/-- A slot goes only when nothing refers to it; this is asked where the call comes that far. -/
def UnregistersIdle (s : Ipc) : IpcAtom → Prop
  | .reg (.slotUnregister (some t)) =>
    s.reg.nxSlotForeachDependent (some t) = [] → s.reg.nxSlotForeachDependency (some t) = [] →
      ¬ s.Refers t
  | _ => True

/-- Nothing refers to slots that are not registered. -/
structure Ipc.QueuesOwned (s : Ipc) : Prop where
  consistent : Consistent s.reg
  owned : ∀ t, s.Refers t → s.reg.HasSlot t

/-! ### Steps -/

/-- A message that may take a connection refers to registered slots only. -/
theorem Hop.mentions {r : Registry} {src dst : SlotId} {m : IpcMessage} {c : ConnId}
    (hop : Hop r src dst m c) (hcons : Consistent r) (hsrc : m.srcSlot = some src)
    (hdst : m.dstSlot = some dst) {t : SlotId} (ht : src = t ∨ dst = t ∨ m.Mentions t) :
    r.HasSlot t := by
  have hedge := isEdge_of_findEdge hcons hop.edge
  have hsrc' : r.HasSlot src := hcons.edges.fromSlot c hedge.1 src hedge.2.1
  have hdst' : r.HasSlot dst := hedge.2.2 ▸ hcons.edges.toSlot c hedge.1
  rcases ht with rfl | rfl | h | h | ⟨cap, hcap, hkind, href⟩
  · exact hsrc'
  · exact hdst'
  · exact Option.some.inj (hsrc.symm.trans h) ▸ hsrc'
  · exact Option.some.inj (hdst.symm.trans h) ▸ hdst'
  · obtain ⟨t', href', hfind⟩ := hop.slotRef hcap hkind
    obtain rfl : t = t' := Option.some.inj (href.symm.trans href')
    obtain ⟨c', hc'⟩ := (findEdge_isSome_iff hcons).mp hfind
    exact hc'.2.2 ▸ hcons.edges.toSlot c' hc'.1

section Steps

variable {s s' : Ipc} {t : SlotId}

/-- What refers to a slot did so before, or is new. -/
theorem Ipc.Refers.of_new {P : Prop} (h : s'.Refers t)
    (hinbox : ∀ slot, ∀ m ∈ s'.inboxOf slot, m ∈ s.inboxOf slot ∨ (slot = t ∨ m.Mentions t → P))
    (hheld : ∀ src dst m, (src, dst, m) ∈ s'.waiting → (src, dst, m) ∈ s.waiting ∨
      (src = t ∨ dst = t ∨ m.Mentions t → P))
    (hentry : ∀ e ∈ s'.holds, (∃ e' ∈ s.holds, e'.src = e.src ∧ e'.dst = e.dst) ∨
      (e.src = t ∨ e.dst = t → P)) :
    s.Refers t ∨ P := by
  cases h with
  | inbox hm h =>
    rcases hinbox _ _ hm with hold | hnew
    · exact .inl (.inbox hold h)
    · exact .inr (hnew h)
  | held hm h =>
    rcases hheld _ _ _ hm with hold | hnew
    · exact .inl (.held hold h)
    · exact .inr (hnew h)
  | entry he h =>
    rcases hentry _ he with ⟨e', he', hsrc, hdst⟩ | hnew
    · exact .inl (.entry he' (by rw [hsrc, hdst]; exact h))
    · exact .inr (hnew h)

/-- Where queues only get shorter, nothing new refers to a slot. -/
theorem Ipc.Refers.of_subset (h : s'.Refers t) (hinbox : ∀ slot, s'.inboxOf slot ⊆ s.inboxOf slot)
    (hheld : s'.waiting ⊆ s.waiting) (hentry : s'.holds ⊆ s.holds) : s.Refers t :=
  (h.of_new (P := False) (fun slot _ hm => .inl (hinbox slot hm)) (fun _ _ _ hm => .inl (hheld hm))
    fun e he => .inl ⟨e, hentry he, rfl, rfl⟩).resolve_right id

theorem Ipc.Refers.of_same (h : s'.Refers t) (hinbox : s'.inbox = s.inbox)
    (hheld : s'.waiting = s.waiting) (hentry : s'.holds = s.holds) : s.Refers t := by
  refine h.of_subset (fun slot => ?_) (hheld ▸ List.Subset.refl _) (hentry ▸ List.Subset.refl _)
  rw [Ipc.inboxOf, hinbox, Ipc.inboxOf]
  exact List.Subset.refl _

/-- An attempt to route makes no queue refer to a slot that is not registered. -/
theorem Routed.refers {src dst : SlotId} {m : IpcMessage} {res : Ipc × Ipc.Route}
    (hr : Routed s src dst m res) (hcons : Consistent s.reg) (hsrc : m.srcSlot = some src)
    (hdst : m.dstSlot = some dst) (h : res.1.Refers t) : s.Refers t ∨ s.reg.HasSlot t := by
  cases hr with
  | refused e => exact .inl (h.of_same rfl rfl rfl)
  | @held c holds hop hpaused hpolicy hholds =>
    refine h.of_new (fun slot m' hm' => .inl hm') (fun a b m' hm' => ?_) fun e he => .inl ?_
    · have hperm := (holdEnqueue_perm hholds).append_left
        ((s.flushes.filterMap (·.cur)).flatMap HoldEntry.items)
      rcases mem_cons.mp ((hperm.trans perm_middle).mem_iff.mp hm') with heq | hold
      · cases heq
        exact .inr (hop.mentions hcons hsrc hdst)
      · exact .inl hold
    · have hkey : e.key ∈ s.holds.map HoldEntry.key :=
        (holdEnqueue_eq_some hholds).keys ▸ mem_map_of_mem he
      obtain ⟨e', he', heq⟩ := mem_map.mp hkey
      cases e
      cases e'
      cases heq
      exact ⟨_, he', rfl, rfl⟩
  | heldFirst hop hpaused hpolicy hholds =>
    refine h.of_new (fun slot m' hm' => .inl hm') (fun a b m' hm' => ?_) fun e he => ?_
    · rcases mem_cons.mp (perm_middle.mem_iff.mp hm') with heq | hold
      · cases heq
        exact .inr (hop.mentions hcons hsrc hdst)
      · exact .inl hold
    · rcases mem_cons.mp he with rfl | hold
      · exact .inr fun ht => hop.mentions hcons hsrc hdst (ht.imp_right .inl)
      · exact .inl ⟨e, hold, rfl, rfl⟩
  | redirect => exact .inl h
  | invoked => exact .inl (h.of_same rfl rfl rfl)
  | queued hop hnone hmode hhosted =>
    refine h.of_new (fun slot m' hm' => ?_) (fun a b m' hm' => .inl hm') fun e he => .inl
      ⟨e, he, rfl, rfl⟩
    rcases mem_inboxOf_concat hm' with hold | ⟨rfl, rfl⟩
    · exact .inl hold
    · exact .inr fun ht => hop.mentions hcons hsrc hdst (.inr ht)
  | dispatched => exact .inl (h.of_same rfl rfl rfl)

theorem Dequeued.refers {slot : SlotId} {res : Ipc × Option IpcMessage} (hr : Dequeued s slot res)
    (h : res.1.Refers t) : s.Refers t := by
  have hsub := hr.inboxOf_subset
  cases hr with
  | empty => exact h
  | taken => exact h.of_subset hsub (List.Subset.refl _) (List.Subset.refl _)

theorem HoldDequeued.refers {res : Ipc × Option IpcMessage} (hr : HoldDequeued s res)
    (h : res.1.Refers t) : s.Refers t := by
  cases hr with
  | empty => exact h
  | @taken f outer e m queue hflushes hcur hqueue =>
    refine h.of_subset (fun _ => List.Subset.refl _) (fun item hitem => ?_) (List.Subset.refl _)
    simp only [Ipc.waiting, Ipc.tell, hflushes, hcur, HoldEntry.items, hqueue, filterMap_cons,
      flatMap_cons, map_cons, cons_append, mem_cons] at hitem ⊢
    exact .inr hitem

/-- Passing over entries and taking one out; the entry that a flush has when it seeks the next is
lost. -/
theorem Sought.refers {res : Ipc × Bool} (hr : Sought s res) (h : res.1.Refers t) : s.Refers t := by
  cases hr with
  | idle => exact h
  | fault => exact h.of_same rfl rfl rfl
  | @through f outer pp before passed hflushes =>
    refine h.of_subset (fun _ => List.Subset.refl _) (fun item hitem => ?_) (List.Subset.refl _)
    simpa [Ipc.waiting, hflushes] using hitem
  | @found f outer pp before passed rest e hflushes hholds =>
    refine h.of_subset (fun _ => List.Subset.refl _) (fun item hitem => ?_) fun e' he' => ?_
    · cases hcur : f.cur <;>
        simp only [Ipc.waiting, hflushes, hholds, hcur, filterMap_cons, flatMap_cons, flatMap_append,
          mem_append] at hitem ⊢ <;> tauto
    · simp only [hholds, mem_append, mem_cons] at he' ⊢
      rcases he' with hbefore | hrest
      · exact .inl hbefore
      · exact .inr (.inr hrest)

theorem freeEntry_refers (h : s.freeEntry.Refers t) : s.Refers t := by
  rw [Ipc.freeEntry] at h
  split at h
  next => exact h
  next f outer hflushes =>
    refine h.of_subset (fun _ => List.Subset.refl _) (fun item hitem => ?_) (List.Subset.refl _)
    cases hcur : f.cur <;>
      simp only [Ipc.waiting, hflushes, hcur, filterMap_cons, flatMap_cons, mem_append] at hitem ⊢ <;>
        tauto

/-- **A step keeps queues owned**, if it unregisters no slot that something refers to. -/
theorem Ipc.QueuesOwned.exec (h : s.QueuesOwned) {a : IpcAtom} (hrouted : WellRouted (.atom a)) (hok : UnregistersIdle s a)
    (answer : Bool) : (s.exec answer a).1.QueuesOwned := by
  -- the registry stays, and what refers to a slot did so before
  have hkept : ∀ s' : Ipc, s'.reg = s.reg → (∀ t, s'.Refers t → s.Refers t ∨ s.reg.HasSlot t) → s'.QueuesOwned := by
    intro s' hreg hrefers
    refine ⟨hreg ▸ h.consistent, fun t ht => hreg ▸ ?_⟩
    exact (hrefers t ht).elim (h.owned t) id
  have hsame : ∀ s' : Ipc, s'.reg = s.reg → s'.inbox = s.inbox → s'.holds = s.holds → s'.flushes = s.flushes →
      s'.QueuesOwned := by
    intro s' hreg hinbox hholds hflushes
    refine hkept s' hreg fun t ht => .inl (ht.of_same hinbox ?_ hholds)
    rw [Ipc.waiting, hholds, hflushes, Ipc.waiting]
  cases a with
  | reg call =>
    refine ⟨h.consistent.next call, fun t ht => ?_⟩
    have href : s.Refers t := ht.of_same rfl rfl rfl
    refine hasSlot_next h.consistent.names (h.owned t href) ?_
    rintro hin hout rfl
    exact hok hin hout href
  | route src dst m =>
    have hr := route_routed s src dst m answer
    exact hkept _ hr.frame.reg fun t ht => hr.refers h.consistent hrouted.1 hrouted.2 ht
  | handlerFor dst m =>
    have hr := handlerFor_handled s dst m
    show (s.handlerFor dst m).1.QueuesOwned
    cases hpair : s.handlerFor dst m
    rw [hpair] at hr
    cases hr <;> exact hsame _ rfl rfl rfl rfl
  | dequeue slot => exact hkept _ (dequeue_dequeued s slot).frame.reg fun t ht => .inl ((dequeue_dequeued s slot).refers ht)
  | flushSeek => exact hkept _ (flushSeek_sought s).frame.reg fun t ht => .inl ((flushSeek_sought s).refers ht)
  | holdDequeue => exact hkept _ (holdDequeue_dequeued s).frame.reg fun t ht => .inl ((holdDequeue_dequeued s).refers ht)
  | freeEntry => exact hkept _ (freeEntry_frame s).reg fun t ht => .inl (freeEntry_refers ht)
  | flushBegin dst =>
    exact hkept _ rfl fun t ht => .inl (ht.of_same rfl rfl rfl)
  | flushEnd =>
    refine hkept _ rfl fun t ht => .inl (ht.of_subset (fun _ => List.Subset.refl _)
      (fun item hitem => ?_) (List.Subset.refl _))
    have hsub : s.flushes.tail.filterMap (·.cur) ⊆ s.flushes.filterMap (·.cur) :=
      ((tail_sublist s.flushes).filterMap _).subset
    rcases mem_append.mp hitem with hcur | hholds
    · obtain ⟨e, he, hi⟩ := mem_flatMap.mp hcur
      exact mem_append_left _ (mem_flatMap.mpr ⟨e, hsub he, hi⟩)
    · exact mem_append_right _ hholds
  | _ => exact hsame _ rfl rfl rfl rfl

end Steps

/-! ### Whole runs -/

theorem queuesOwned_boot (hosted : Bool) (slot : SlotId → Slot) (comp : CompId → Component) :
    (bootIpc hosted slot comp).QueuesOwned := by
  refine ⟨consistent_boot slot comp, fun t ht => ?_⟩
  cases ht with
  | inbox hm => cases hm
  | held hm => cases hm
  | entry he => cases he

/-- No queue and nothing in a queue refers to a slot that is not registered. -/
def Ipc.NothingLeft (s : Ipc) : Prop := ∀ t, ¬ s.reg.HasSlot t → ¬ s.Refers t

/-- **In every state reached, also inside of callbacks, nothing refers to a slot that is not
registered**, if slots are only unregistered when nothing refers to them. -/
theorem unregistered_unreferred {α : Type} {q : IpcM α} (hq : Prog.All ipc.Exported q)
    {slot : SlotId → Slot} {comp : CompId → Component} {tr : ipc.Trace} {s : Ipc} {a : α}
    (hrun : Runs ipc UnregistersIdle true q (bootIpc true slot comp) tr s a) :
    Runs ipc (fun s _ => s.NothingLeft) true q (bootIpc true slot comp) tr s a ∧ s.NothingLeft := by
  have hatom : ∀ s o s' r, WellRouted (.atom o) → UnregistersIdle s o → ipc.step s o s' r →
    s.QueuesOwned →
      s'.QueuesOwned := by
    rintro s o s' r hrouted hok ⟨answer, heq⟩ h
    have hexec := h.exec hrouted hok answer
    rwa [heq] at hexec
  have hleft : ∀ s : Ipc, s.QueuesOwned → s.NothingLeft := fun s h t ht href => ht (h.owned t href)
  obtain ⟨halways, howned⟩ := Runs.always (fun _ => trivial) wellRouted_ipcBody hatom
    (all_of_exported (fun _ => trivial) hq) hrun (queuesOwned_boot true slot comp)
  exact ⟨halways.mono fun s _ h => hleft s h.2, hleft s howned⟩

/-- The state after a call of the registry. -/
def Ipc.called (s : Ipc) (call : RegCall) : Ipc :=
  { s with budget := s.budget - 1, reg := call.next s.reg, log := s.log ++ call.events (call.apply s.reg).2 }

/-- A call of the registry, and then others, where nobody does anything about it. -/
theorem runs_reg_cons {ok : Ipc → IpcAtom → Prop} {s s' : Ipc} (call : RegCall)
    {calls : List IpcCall} {α : Type} {a : α}
    {tr : ipc.Trace} (henter : ok s (.enter (.fw (.reg call)))) (hreg : ok { s with budget := s.budget - 1 } (.reg call))
    (hrest : Runs ipc ok true (makeCalls calls a) (s.called call) tr s' a) :
    ∃ tr', Runs ipc ok true (makeCalls (.fw (.reg call) :: calls) a) s tr' s' a := by
  let st := (call.apply s.reg).2
  let s₁ := s.called call
  obtain ⟨tr₁, hemit⟩ : ∃ tr₁, Runs ipc ok true (if st = .ok () ∧ call.emits then do
      callback (.event call)
      pure st
    else pure st) s₁ tr₁ s₁ st := by
    by_cases hemits : st = .ok () ∧ call.emits
    · rw [if_pos hemits]
      exact ⟨_, .callback (pure ()) trivial (.pure _ _) (.pure _ _)⟩
    · rw [if_neg hemits]
      exact ⟨_, .pure _ _⟩
  have hbody : Runs ipc ok true (regCallEmit call) { s with budget := s.budget - 1 } _ s₁ st :=
    .atom (fun _ => hreg) ⟨true, rfl⟩ hemit
  exact ⟨_, .proc (.atom (fun _ => henter) ⟨true, rfl⟩ (.proc hbody (.pure _ _))) hrest⟩

theorem runs_makeCalls_append {ok : Ipc → IpcAtom → Prop} {s s₁ s' : Ipc}
    {calls calls' : List IpcCall} {tr tr' : ipc.Trace}
    (h : Runs ipc ok true (makeCalls calls ()) s tr s₁ ())
    (h' : Runs ipc ok true (makeCalls calls' ()) s₁ tr' s' ()) :
    ∃ tr'', Runs ipc ok true (makeCalls (calls ++ calls') ()) s tr'' s' () := by
  induction calls generalizing s tr with
  | nil =>
    cases h
    exact ⟨_, h'⟩
  | cons call calls ih =>
    cases h with
    | proc hbody hrest =>
      obtain ⟨tr'', hboth⟩ := ih hrest
      exact ⟨_, .proc hbody hboth⟩

/-- Nobody unregisters a slot. -/
def keepsSlots : CallSys.Driver ipc :=
  { quiet with
    allow := fun _ o =>
      match o with
      | .reg (.slotUnregister _) => false
      | _ => true }

/-- A message for slot `2` is delivered, and then the connection goes. -/
def usedUp : List IpcCall :=
  plugIn 1 7 ++ plugIn 2 8 ++ [connect 1 2 .async .queue, .send (some 1) (some 2) [],
    .dispatch (some 2) 1, .fw (.reg (.connectionUnregister (some 0)))]

/-- The state after that. -/
def afterUse : Ipc := evalState keepsSlots 200 (makeCalls usedUp ()) namedBoot

/-- Nothing refers to a slot when no message is on a queue. -/
theorem Ipc.Accounted.not_refers {s : Ipc} (h : s.Accounted)
    (hoff : ∀ id < s.nextMessage, (s.last id).any IpcEvent.onQueue = false) (hholds : s.holds = [])
    (t : SlotId) : ¬ s.Refers t := by
  have hno : ∀ id ev, s.last id = some ev → ev.onQueue = false := fun id ev hlast => by
    have hoff' := hoff id (h.old ev (mem_of_lastAbout hlast) id (about_of_lastAbout hlast))
    rwa [hlast] at hoff'
  rintro (⟨hm, -⟩ | ⟨hm, -⟩ | ⟨he, -⟩)
  · obtain ⟨-, src, hlast⟩ := (h.inbox _ _).mp hm
    cases hno _ _ hlast
  · cases hno _ _ ((h.waiting _ _ _).mp hm)
  · rw [hholds] at he
    cases he

theorem unregistered_unreferred_used :
    ∃ tr s m, Runs ipc UnregistersIdle true
      (makeCalls (usedUp ++ [.fw (.reg (.slotUnregister (some 2)))]) ()) namedBoot
      tr s () ∧ .delivered 2 8 m ∈ s.log ∧ ¬ s.reg.HasSlot 2 ∧ s.NothingLeft := by
  have hallow : ∀ s o, keepsSlots.allow s o = true → UnregistersIdle s o := by
    intro s o h
    unfold UnregistersIdle
    split
    · cases h
    · trivial
  obtain ⟨tr₁, hrun₁⟩ : ∃ tr, Runs ipc UnregistersIdle true (makeCalls usedUp ()) namedBoot tr
    afterUse () :=
    runs_evalState (fun _ c => .inl ⟨c.pass, rfl⟩) (fun _ => hallow) (by decide +kernel)
  obtain ⟨hkept, -⟩ := hrun₁.sound fates_kept (fates_kept.wp_exported (makeCalls_exported _ _) _)
    (accounted_boot true _ _)
  have hacc : { afterUse with budget := afterUse.budget - 1 }.Accounted :=
    (Kept.of_log hkept.accounted rfl rfl rfl rfl rfl (.refl _)).accounted
  have hidle := hacc.not_refers (by decide +kernel) (by decide +kernel) 2
  obtain ⟨tr₂, hrun₂⟩ : ∃ tr, Runs ipc UnregistersIdle true
    (makeCalls [.fw (.reg (.slotUnregister (some 2)))] ()) afterUse tr
    (afterUse.called (.slotUnregister (some 2))) () := runs_reg_cons _
      trivial (fun _ _ => hidle) (.pure _ _)
  obtain ⟨tr, hrun⟩ := runs_makeCalls_append hrun₁ hrun₂
  exact ⟨tr, _, ⟨0, some 1, some 2, []⟩, hrun, by decide +kernel, by decide +kernel,
    (unregistered_unreferred (makeCalls_exported _ _) hrun).2⟩

/-- A message waits for a slot whose connections go, and the slot with them. -/
def unregisterInUse : IpcM ℤ := do
  makeCalls (plugIn 1 7 ++ plugIn 2 8 ++ [connect 1 2 .async .queue, .send (some 1) (some 2) [],
    .fw (.reg (.connectionUnregister (some 0)))]) ()
  IpcM.proc (.api (.fw (.reg (.slotUnregister (some 2)))))

/-- **A slot that is unregistered leaves its messages behind.** -/
theorem unregister_leaves_inbox :
    ∃ tr s, Runs ipc (fun _ _ => True) true unregisterInUse namedBoot tr s nxOk ∧ ¬ s.reg.HasSlot 2 ∧
      s.inboxOf 2 = [⟨0, some 1, some 2, []⟩] := by
  obtain ⟨tr, hrun⟩ : ∃ tr, Runs ipc (fun _ _ => True) true unregisterInUse namedBoot tr
    (evalState quiet 200 unregisterInUse namedBoot) nxOk := runs_driver 200 (by decide +kernel)
  exact ⟨tr, _, hrun, by decide +kernel, by decide +kernel⟩

end Nonux.Framework
