import Nonux.Framework.ComponentList
import Nonux.Framework.SendSafety

/-!
# Where connections come from

A component gets a connection to a slot by retaining a reference that it was sent. The router lets a
message pass only if its sender has a connection to every slot that the message carries a reference
to. The check is made when the message is sent, and the reference is retained later, when
connections may have come and gone; but whoever was sent the reference was sent it by someone who
had a connection then.

So every connection goes back, from message to message, to one that was there at the start
(`edges_traced`).
-/

namespace Nonux.Framework

open Nonux.Lib CallSys Function List
open Prog hiding pure

open IpcM (atom proc)

/-! ### Chains of messages -/

/-- A message carries a reference to a slot. -/
def IpcMessage.Carries (m : IpcMessage) (t : SlotId) : Prop :=
  ∃ cap ∈ m.caps, cap.kind = .slotRef ∧ cap.slotRef = some t

/-- The router passes a message from one slot to another. -/
def IpcEvent.Passes (ev : IpcEvent) (src dst : SlotId) (m : IpcMessage) : Prop :=
  ev = .queued src dst m ∨ ev = .invoked src dst m

/-- **A slot can reach another**: it had a connection at the start, or it was sent a reference by a
slot that could reach it before. -/
inductive Traced (r : Registry) : List IpcEvent → SlotId → SlotId → Prop
  | wired {log : List IpcEvent} {src t : SlotId} {c : ConnId} (h : r.IsEdge src t c) : Traced r log src t
  | sent {pre post : List IpcEvent} {ev : IpcEvent} {sender src t : SlotId} {m : IpcMessage}
      (hev : ev.Passes sender src m) (hcarries : m.Carries t) (hsender : Traced r pre sender t) :
      Traced r (pre ++ ev :: post) src t

/-- A slot was sent a reference to another by a slot that could reach it before. -/
def WasSent (r : Registry) (log : List IpcEvent) (src t : SlotId) : Prop :=
  ∃ pre ev post sender m, log = pre ++ ev :: post ∧ ev.Passes sender src m ∧ m.Carries t ∧
    Traced r pre sender t

variable {r : Registry} {t : SlotId}

variable {src : SlotId}

theorem WasSent.traced {log : List IpcEvent} (h : WasSent r log src t) : Traced r log src t := by
  obtain ⟨pre, ev, post, sender, m, rfl, hev, hcarries, hsender⟩ := h
  exact .sent hev hcarries hsender

theorem Traced.append {log : List IpcEvent} (h : Traced r log src t) (more : List IpcEvent) :
    Traced r (log ++ more) src t := by
  cases h with
  | wired h => exact .wired h
  | sent hev hcarries hsender =>
    rw [append_assoc, cons_append]
    exact .sent hev hcarries hsender

/-! ### The registry -/

/-- A call of the registry that connects two slots if it succeeds. -/
def RegCall.Links (call : RegCall) (src t : SlotId) : Prop := .linked src t ∈ call.events (.ok ())

/-- Connections are there already, or the call makes one. -/
theorem isEdge_next {call : RegCall} {c : ConnId} (h : (call.next r).IsEdge src t c) :
    r.IsEdge src t c ∨ call.Links src t ∧ (call.apply r).2 = .ok () := by
  rcases call.outcome r with ⟨e, heq⟩ | ⟨hok, heffect⟩
  · rw [RegCall.next, heq] at h
    exact .inl h
  · rw [RegCall.next] at h
    generalize (call.apply r).1 = r' at h heffect
    cases heffect with
    | @connectionRegister fromSlot dst mode stateful policy =>
      obtain ⟨hmem, hfrom, hto⟩ := h
      by_cases hc : c = r.nextConn
      · subst hc
        simp only [update_self] at hfrom hto
        subst hfrom hto
        exact .inr ⟨mem_singleton_self _, hok⟩
      · simp only [update_of_ne hc] at hfrom hto
        exact .inl ⟨(mem_cons.mp hmem).resolve_left hc, hfrom, hto⟩
    | @connectionRetune c' mode stateful hc' =>
      obtain ⟨hmem, hfrom, hto⟩ := h
      by_cases hc : c = c'
      · subst hc
        simp only [update_self] at hfrom hto
        exact .inl ⟨hmem, hfrom, hto⟩
      · simp only [update_of_ne hc] at hfrom hto
        exact .inl ⟨hmem, hfrom, hto⟩
    | connectionUnregister => exact .inl ⟨mem_of_mem_erase h.1, h.2⟩
    | _ => exact .inl h

/-- A message that may take a connection carries references to what its sender has connections
to. -/
theorem Hop.carries {dst : SlotId} {m : IpcMessage} {c : ConnId} (hop : Hop r src dst m c)
    (hcons : Consistent r) (ht : m.Carries t) : ∃ c, r.IsEdge src t c := by
  obtain ⟨cap, hcap, hkind, href⟩ := ht
  obtain ⟨t', href', hedge⟩ := hop.slotRef hcap hkind
  obtain rfl := Option.some.inj (href.symm.trans href')
  exact (findEdge_isSome_iff hcons).mp hedge

variable {s : Ipc}

theorem carries_of_capOf {m : IpcMessage} {i : ℕ} {cap : IpcCap} (h : s.capOf m i = some cap)
    (hkind : cap.kind = .slotRef) (href : cap.slotRef = some t) : m.Carries t := by
  obtain ⟨cap₀, hcap₀, rfl⟩ := Option.map_eq_some_iff.mp h
  exact ⟨cap₀, mem_of_getElem? hcap₀, hkind, href⟩

/-- What a call adds to the log. -/
theorem RegCall.events_cases (call : RegCall) (st : Status) :
    call.events st = [] ∨ ∃ src t, call.events st = [.linked src t] ∧ call.Links src t := by
  unfold RegCall.events
  split
  next src t _ _ _ _ _ => exact .inr ⟨src, t, rfl, mem_singleton_self _⟩
  next => exact .inl rfl

/-! ### The invariant -/

/-- A slot was sent a message. -/
def Ipc.Received (s : Ipc) (dst : SlotId) (m : IpcMessage) : Prop :=
  ∃ ev ∈ s.log, ∃ src, ev.Passes src dst m

/-- **Connections go back to the start**, and messages in inboxes and those that were delivered were
sent by slots that could reach what they carry. -/
structure Ipc.Origins (r : Registry) (s : Ipc) : Prop where
  consistent : Consistent s.reg
  edges : ∀ src t c, s.reg.IsEdge src t c → Traced r s.log src t
  inbox : ∀ slot m, m ∈ s.inboxOf slot → s.Received slot m
  delivered : ∀ slot c m, .delivered slot c m ∈ s.log → s.Received slot m
  sent : ∀ pre ev post src dst m, s.log = pre ++ ev :: post → ev.Passes src dst m →
    ∀ t, m.Carries t → Traced r pre src t
  linked : ∀ pre post src t, s.log = pre ++ .linked src t :: post → WasSent r pre src t

section Steps

variable {r : Registry} {s s' : Ipc} {ev : IpcEvent}

variable {dst : SlotId} {m : IpcMessage}

theorem Ipc.Received.of_subset (h : s.Received dst m) (hlog : s.log ⊆ s'.log) : s'.Received dst m := by
  obtain ⟨ev, hev, hpasses⟩ := h
  exact ⟨ev, hlog hev, hpasses⟩

variable {src : SlotId}

theorem Ipc.Received.of_event (hev : ev.Passes src dst m) (hlog : s'.log = s.log ++ [ev]) :
    s'.Received dst m :=
  ⟨ev, hlog ▸ mem_append_right _ (mem_singleton_self _), src, hev⟩

/-- Whoever was sent a message was sent what it carries. -/
theorem Ipc.Origins.wasSent (h : s.Origins r) (hm : s.Received dst m) (ht : m.Carries t) :
    WasSent r s.log dst t := by
  obtain ⟨ev, hmem, src, hev⟩ := hm
  obtain ⟨pre, post, hlog⟩ := append_of_mem hmem
  exact ⟨pre, ev, post, src, m, hlog, hev, ht, h.sent pre ev post src dst m hlog hev t ht⟩

/-- Steps that make no connection and leave the log alone. -/
theorem Ipc.Origins.same (h : s.Origins r) (hcons : Consistent s'.reg) (hlog : s'.log = s.log)
    (hinbox : s'.inbox = s.inbox)
    (hedges : ∀ src t c, s'.reg.IsEdge src t c → s.reg.IsEdge src t c) : s'.Origins r := by
  have hsub : s.log ⊆ s'.log := hlog ▸ List.Subset.refl _
  refine ⟨hcons, fun src t c hc => ?_, fun slot m hm => ?_, fun slot c m hm => ?_, ?_, ?_⟩
  · rw [hlog]
    exact h.edges src t c (hedges src t c hc)
  · rw [Ipc.inboxOf, hinbox] at hm
    exact (h.inbox slot m hm).of_subset hsub
  · rw [hlog] at hm
    exact (h.delivered slot c m hm).of_subset hsub
  · rw [hlog]
    exact h.sent
  · rw [hlog]
    exact h.linked

/-- **One event**: a connection that is made, a message that passes and one that is delivered have
to be accounted for. -/
theorem Ipc.Origins.event (h : s.Origins r) (hcons : Consistent s'.reg) (hlog : s'.log = s.log ++ [ev])
    (hedges : ∀ src t c, s'.reg.IsEdge src t c → s.reg.IsEdge src t c ∨ ev = .linked src t)
    (hinbox : ∀ slot m, m ∈ s'.inboxOf slot → m ∈ s.inboxOf slot ∨ ∃ src, ev.Passes src slot m)
    (hsent : ∀ src dst m t, ev.Passes src dst m → m.Carries t → ∃ c, s.reg.IsEdge src t c)
    (hdelivered : ∀ slot c m, ev = .delivered slot c m → s.Received slot m)
    (hlinked : ∀ src t, ev = .linked src t → WasSent r s.log src t) : s'.Origins r := by
  have hsub : s.log ⊆ s'.log := hlog ▸ subset_append_left _ _
  have hnew : ev ∈ s'.log := hlog ▸ mem_append_right _ (mem_singleton_self _)
  refine ⟨hcons, fun src t c hc => ?_, fun slot m hm => ?_, fun slot c m hm => ?_, ?_, ?_⟩
  · rw [hlog]
    rcases hedges src t c hc with hold | hev
    · exact (h.edges src t c hold).append _
    · exact (hlinked src t hev).traced.append _
  · rcases hinbox slot m hm with hold | ⟨src, hpasses⟩
    · exact (h.inbox slot m hold).of_subset hsub
    · exact ⟨ev, hnew, src, hpasses⟩
  · rw [hlog, mem_append, mem_singleton] at hm
    rcases hm with hold | hev
    · exact (h.delivered slot c m hold).of_subset hsub
    · exact (hdelivered slot c m hev.symm).of_subset hsub
  · intro pre ev' post src dst m heq hpasses t ht
    rw [hlog] at heq
    rcases append_one_eq_append_cons heq with ⟨rfl, rfl⟩ | ⟨post', heq'⟩
    · obtain ⟨c, hc⟩ := hsent src dst m t hpasses ht
      exact h.edges src t c hc
    · exact h.sent pre ev' post' src dst m heq' hpasses t ht
  · intro pre post src t heq
    rw [hlog] at heq
    rcases append_one_eq_append_cons heq with ⟨rfl, hev⟩ | ⟨post', heq'⟩
    · exact hlinked src t hev.symm
    · exact h.linked pre post' src t heq'

/-- An event that has to be accounted for by nothing but the state before it. -/
theorem Ipc.Origins.tell (h : s.Origins r) (hreg : s'.reg = s.reg) (hlog : s'.log = s.log ++ [ev])
    (hinbox : ∀ slot m, m ∈ s'.inboxOf slot → m ∈ s.inboxOf slot)
    (hpasses : ∀ src dst m, ¬ ev.Passes src dst m)
    (hdelivered : ∀ slot c m, ev = .delivered slot c m → s.Received slot m)
    (hlinked : ∀ src t, ev ≠ .linked src t) :
    s'.Origins r := by
  refine h.event (hreg ▸ h.consistent) hlog (fun src t c hc => .inl (hreg ▸ hc))
    (fun slot m hm => .inl (hinbox slot m hm)) ?_ hdelivered ?_
  · exact fun src dst m t hp => absurd hp (hpasses src dst m)
  · exact fun src t hev => absurd hev (hlinked src t)

/-- The invariant is kept, and the log grows. -/
def Remains (r : Registry) (s s' : Ipc) : Prop := s.Origins r → s'.Origins r ∧ s.log ⊆ s'.log

theorem Remains.refl (r : Registry) (s : Ipc) : Remains r s s := fun h => ⟨h, List.Subset.refl _⟩

theorem Remains.trans (s s₁ s' : Ipc) (h : Remains r s s₁) (h' : Remains r s₁ s') : Remains r s s' := by
  intro hs
  obtain ⟨hs₁, hsub⟩ := h hs
  obtain ⟨hs', hsub'⟩ := h' hs₁
  exact ⟨hs', List.Subset.trans hsub hsub'⟩

theorem Remains.same (hreg : s'.reg = s.reg) (hlog : s'.log = s.log) (hinbox : s'.inbox = s.inbox) :
    Remains r s s' :=
  fun h => ⟨h.same (hreg ▸ h.consistent) hlog hinbox fun _ _ _ hc => hreg ▸ hc,
    hlog ▸ List.Subset.refl _⟩

theorem Remains.tell (hreg : s'.reg = s.reg) (hlog : s'.log = s.log ++ [ev])
    (hinbox : ∀ slot m, m ∈ s'.inboxOf slot → m ∈ s.inboxOf slot)
    (hpasses : ∀ src dst m, ¬ ev.Passes src dst m)
    (hdelivered : ∀ slot c m, ev ≠ .delivered slot c m)
    (hlinked : ∀ src t, ev ≠ .linked src t) : Remains r s s' :=
  fun h => ⟨h.tell hreg hlog hinbox hpasses (fun slot c m hev => absurd hev (hdelivered slot c m))
    hlinked, hlog ▸ subset_append_left _ _⟩

/-- A message passes whose sender has connections to what it carries. -/
theorem Remains.pass {c : ConnId} (hop : Hop s.reg src dst m c)
    (hev : ev = .queued src dst m ∨ ev = .invoked src dst m) (hreg : s'.reg = s.reg)
    (hlog : s'.log = s.log ++ [ev])
    (hinbox : ∀ slot m', m' ∈ s'.inboxOf slot → m' ∈ s.inboxOf slot ∨ slot = dst ∧ m' = m) :
    Remains r s s' := by
  have honly : ∀ a b m', ev.Passes a b m' → a = src ∧ m' = m := by
    rintro a b m' (rfl | rfl) <;> simp_all
  refine fun h => ⟨?_, hlog ▸ subset_append_left _ _⟩
  refine h.event (hreg ▸ h.consistent) hlog (fun a t c hc => .inl (hreg ▸ hc))
    (fun slot m' hm' => ?_) ?_ ?_ ?_
  · exact (hinbox slot m' hm').imp_right fun ⟨hslot, hmsg⟩ => ⟨src, hslot ▸ hmsg ▸ hev⟩
  · intro a b m' t hp ht
    obtain ⟨rfl, rfl⟩ := honly a b m' hp
    exact hop.carries h.consistent ht
  · rintro slot c' m' rfl
    simp at hev
  · rintro a t rfl
    simp at hev

/-- One attempt to send a message. If the handler is to be invoked, the slot was sent the
message. -/
theorem Routed.remains {res : Ipc × Ipc.Route} (hr : Routed s src dst m res) :
    Remains r s res.1 ∧ (res.2 = .invoke → res.1.Received dst m) := by
  cases hr with
  | refused e | held | heldFirst =>
    exact ⟨.tell rfl rfl (fun _ _ => id) (by simp [IpcEvent.Passes]) (by simp) (by simp), by simp⟩
  | redirect => exact ⟨.refl r s, by simp⟩
  | invoked hop => exact ⟨.pass hop (.inr rfl) rfl rfl fun _ _ => .inl,
      fun _ => .of_event (.inr rfl) rfl⟩
  | queued hop =>
    exact ⟨.pass hop (.inl rfl) rfl rfl fun _ _ => mem_inboxOf_concat, by simp⟩
  | dispatched hop => exact ⟨.pass hop (.inl rfl) rfl rfl fun _ _ => .inl, by simp⟩

/-- A message that is taken out of an inbox was sent to the slot. -/
theorem Dequeued.remains {slot : SlotId} {res : Ipc × Option IpcMessage} (hd : Dequeued s slot res) :
    Remains r s res.1 ∧ (s.Origins r → ∀ m, res.2 = some m → res.1.Received slot m) := by
  have hsub := hd.inboxOf_subset
  cases hd with
  | empty => exact ⟨.refl r s, fun _ => nofun⟩
  | @taken m q hinbox =>
    refine ⟨.tell rfl rfl (fun slot' _ hm' => hsub slot' hm') (by simp [IpcEvent.Passes]) nofun
      nofun, fun h => ?_⟩
    rintro m' ⟨⟩
    exact (h.inbox slot m (hinbox ▸ mem_cons_self)).of_subset (subset_append_left _ _)

theorem Sought.remains {res : Ipc × Bool} (hs : Sought s res) : Remains r s res.1 := by
  cases hs <;> exact .same rfl rfl rfl

theorem HoldDequeued.remains {res : Ipc × Option IpcMessage} (hd : HoldDequeued s res) :
    Remains r s res.1 := by
  cases hd with
  | empty => exact .refl r s
  | taken => exact .tell rfl rfl (fun _ _ => id) (by simp [IpcEvent.Passes]) nofun nofun

theorem freeEntry_remains (s : Ipc) : Remains r s s.freeEntry := by
  rw [Ipc.freeEntry]
  split <;> exact .same rfl rfl rfl

/-- A message that a slot was sent is handed to the component in it. -/
theorem Handled.remains {res : Ipc × Option CompId} (hh : Handled s dst m res) (h : s.Origins r)
    (hm : s.Received dst m) : res.1.Origins r ∧ s.log ⊆ res.1.log := by
  cases hh with
  | nobody => exact Remains.tell rfl rfl (fun _ _ => id) (by simp [IpcEvent.Passes]) nofun nofun h
  | @component c =>
    refine ⟨h.tell rfl rfl (fun _ _ => id) (by simp [IpcEvent.Passes]) ?_ nofun, subset_append_left _ _⟩
    rintro slot c' m' ⟨⟩
    exact hm

/-- A call of the registry, if one may have the connection that it makes. -/
theorem Remains.reg {call : RegCall} (hlinks : ∀ src t, call.Links src t → WasSent r s.log src t)
    (answer : Bool) : Remains r s (s.exec answer (.reg call)).1 := by
  refine fun h => ⟨?_, subset_append_left _ _⟩
  have hcons : Consistent (call.next s.reg) := h.consistent.next call
  rcases call.events_cases (call.apply s.reg).2 with hevents | ⟨src, t, hevents, hlink⟩
  · refine h.same hcons ?_ rfl fun src t c hc => (isEdge_next hc).resolve_right ?_
    · exact (congrArg (s.log ++ ·) hevents).trans (append_nil _)
    · rintro ⟨hlink, hok⟩
      rw [RegCall.Links, ← hok, hevents] at hlink
      exact not_mem_nil hlink
  · refine h.event hcons (congrArg (s.log ++ ·) hevents)
      (fun a t' c hc => (isEdge_next hc).imp_right ?_) (fun _ _ => .inl)
      (by simp [IpcEvent.Passes]) nofun ?_
    · rintro ⟨hlink', hok⟩
      rw [RegCall.Links, ← hok, hevents] at hlink'
      exact (mem_singleton.mp hlink').symm
    · rintro a t' ⟨⟩
      exact hlinks src t hlink

end Steps

/-! ### Runs -/

/-- **Components keep to what they are sent**: they retain references from messages that were
delivered to them, and connect slots in no other way. What is in the queue of the dispatcher is
delivered at some time. -/
def RetainsDelivered (s : Ipc) : IpcAtom → Prop
  | .enter (.retain (some self) m _) =>
    (∃ c, .delivered self c m ∈ s.log) ∨ s.hosted = false ∧ ∃ src, .queued src self m ∈ s.log
  | .enter (.fw (.reg call)) => ∀ src t, ¬ call.Links src t
  | .enter (.fw (.recompose _)) => False
  | _ => True

theorem RetainsDelivered.congr {s' : Ipc} {a : IpcAtom} (h : RetainsDelivered s a)
    (hlog : s'.log = s.log) (hhosted : s'.hosted = s.hosted) : RetainsDelivered s' a := by
  unfold RetainsDelivered at h ⊢
  rw [hlog, hhosted]
  exact h

/-- A call of the registry may make a connection to what the slot was sent a reference to.
Everything else keeps the invariant. -/
def tracing (r : Registry) : Contract ipc where
  spec chk f s _ s' _ := chk = true →
    (∀ call, f = .reg call → ∀ src t, call.Links src t → WasSent r s.log src t) → Remains r s s'
  rely := Remains r

section Bodies

variable {r : Registry} {s : Ipc}

/-- What keeps the invariant in every state. -/
abbrev Tracing (r : Registry) : Req IpcAtom IpcProc IpcCallback → Prop :=
  Keeps RetainsDelivered (tracing r) true (Remains r)

theorem tracing_callback (c : IpcCallback) : Tracing r (.callback c) := fun _ _ h => h

theorem tracing_proc {f : IpcProc} (hf : ∀ call, f = .reg call → ∀ src t, ¬ call.Links src t) :
    Tracing r (.proc f) :=
  fun _ _ _ _ h => h rfl fun call hcall src t hlink => absurd hlink (hf call hcall src t)

theorem tracing_atom {a : IpcAtom} (h : ∀ s answer, Remains r s (s.exec answer a).1) :
    Tracing r (.atom a) := by
  rintro s s' res - ⟨answer, heq⟩
  have hremains := h s answer
  rwa [heq] at hremains

theorem tracing_aside (a : IpcAtom) (h : a.aside = true) : Tracing r (.atom a) := by
  refine tracing_atom fun s answer => ?_
  cases a <;> cases h <;> exact .same rfl rfl rfl

variable {m : IpcMessage}

/-- Handing a message to the component in a slot that was sent it. -/
theorem wp_invokeHandler_remains {dst : SlotId} (hm : s.Received dst m) :
    wp RetainsDelivered (tracing r) true (invokeHandler dst m) s fun _ s' _ => Remains r s s' := by
  refine wp_atom_bind_of (fun _ => handlerFor_handled s dst m) fun s₁ handler hhandled _ => ?_
  have hs₁ : Remains r s s₁ := fun h => hhandled.remains h hm
  cases handler with
  | none => exact hs₁
  | some c => exact fun s₂ _ hrely => hs₁.trans _ _ _ hrely

theorem wp_of_tracing {α : Type} {p : IpcM α} (h : Prog.All (Tracing r) p) (s : Ipc) :
    wp RetainsDelivered (tracing r) true p s fun _ s' _ => Remains r s s' :=
  wp_of_keeps (.refl r) Remains.trans h s

theorem tracing_refuse (m : IpcMessage) : Tracing r (.atom (.refuse m)) :=
  tracing_atom fun _ _ => .tell rfl rfl (fun _ _ => id) (by simp [IpcEvent.Passes]) nofun nofun

theorem tracing_drop (m : IpcMessage) : Tracing r (.atom (.drop m)) :=
  tracing_atom fun _ _ => .tell rfl rfl (fun _ _ => id) (by simp [IpcEvent.Passes]) nofun nofun

theorem tracing_told (m : IpcMessage) (rc : ℤ) : Tracing r (.atom (.told m rc)) :=
  tracing_atom fun _ _ => .tell rfl rfl (fun _ _ => id) (by simp [IpcEvent.Passes]) nofun nofun

theorem wp_doSendOnce_remains {redirected : Option SlotId → IpcM ℤ}
    (hredirected : ∀ s fallback, wp RetainsDelivered (tracing r) true (redirected fallback) s
      fun _ s' _ => Remains r s s')
    (s : Ipc) : wp RetainsDelivered (tracing r) true (doSendOnce m redirected) s
    fun _ s' _ => Remains r s s' := by
  unfold doSendOnce
  split
  next src dst hsrc hdst =>
    refine wp_callback_bind.mpr fun s₁ abort hs₁ => wp_ite.mpr ⟨fun _ => ?_, fun _ => ?_⟩
    · have hdrop : Prog.All (Tracing r) (atom (.drop m) >>= fun _ => pure Err.eabort.code) :=
        all_op (tracing_drop m) fun _ => trivial
      exact wp_mono (wp_of_tracing hdrop s₁) fun _ _ _ => hs₁.trans _ _ _
    · refine wp_atom_bind_of (route_routed s₁ src dst m) fun s₂ route hrouted _ => ?_
      obtain ⟨hstep, hinvoke⟩ := hrouted.remains (r := r)
      have hs₂ : Remains r s s₂ := hs₁.trans _ _ _ hstep
      cases route with
      | failed e => exact hs₂
      | accepted => exact hs₂
      | redirect fallback => exact wp_mono (hredirected s₂ fallback) fun _ _ _ => hs₂.trans _ _ _
      | invoke => exact wp_mono (wp_invokeHandler_remains (hinvoke rfl)) fun _ _ _ => hs₂.trans _ _ _
  next =>
    refine wp_of_tracing ?_ s
    exact all_op (tracing_refuse m) fun _ => trivial

theorem wp_doSend_remains (left : ℕ) (m : IpcMessage) (s : Ipc) :
    wp RetainsDelivered (tracing r) true (doSend left m) s fun _ s' _ => Remains r s s' := by
  have hwith : ∀ m e s, wp RetainsDelivered (tracing r) true (refuseWith m e) s
      fun _ s' _ => Remains r s s' := by
    intro m e s
    refine wp_of_tracing ?_ s
    exact all_op (tracing_refuse m) fun _ => trivial
  induction left generalizing m s with
  | zero => exact wp_doSendOnce_remains (fun s _ => hwith m .eloop s) s
  | succ left ih =>
    refine wp_doSendOnce_remains (fun s fallback => ?_) s
    cases fallback with
    | none => exact hwith m .enoent s
    | some fb => exact ih { m with dstSlot := some fb } s

/-- A message that was in the inbox is still one that the slot was sent when the hooks have run. -/
theorem wp_dispatchLoop_remains (slot : SlotId) (left : ℕ) (s : Ipc) :
    wp RetainsDelivered (tracing r) true (dispatchLoop slot left) s fun _ s' _ => Remains r s s' := by
  cases left with
  | zero => exact .refl r s
  | succ left =>
    refine wp_imp fun hs => wp_atom_bind_of (fun _ => dequeue_dequeued s slot)
      fun s₁ next hdequeued _ => ?_
    obtain ⟨hstep, hreceived⟩ := hdequeued.remains (r := r)
    obtain ⟨h₁, hsub₁⟩ := hstep hs
    cases next with
    | none => exact ⟨h₁, hsub₁⟩
    | some m =>
      refine wp_callback_bind.mpr fun s₂ abort hrely => ?_
      obtain ⟨h₂, hsub₂⟩ := hrely h₁
      have hrest : Prog.All (Tracing r)
          (proc (.dispatchLoop slot left) >>= fun n : ℕ => (pure (n + 1) : IpcM ℕ)) :=
        all_op (tracing_proc nofun) fun _ => trivial
      have hfinal : ∀ s', Remains r s₂ s' → s'.Origins r ∧ s.log ⊆ s'.log := fun s' hs' =>
        ⟨(hs' h₂).1, List.Subset.trans hsub₁ (List.Subset.trans hsub₂ (hs' h₂).2)⟩
      refine wp_ite.mpr ⟨fun _ => ?_, fun _ => ?_⟩
      · have hdrop : Prog.All (Tracing r)
          (atom (.drop m) >>= fun _ => proc (.dispatchLoop slot left) >>= fun n : ℕ =>
            (pure (n + 1) : IpcM ℕ)) := all_op (tracing_drop m) fun _ => hrest
        exact wp_mono (wp_of_tracing hdrop s₂) fun _ s' _ => hfinal s'
      · have hm : s₂.Received slot m := (hreceived hs m rfl).of_subset hsub₂
        refine wp_bind.mpr (wp_mono (wp_invokeHandler_remains hm) fun _ s₃ rc hs₃ => ?_)
        refine wp_ite.mpr ⟨fun _ => hfinal s₃ hs₃, fun _ => ?_⟩
        exact wp_mono (wp_of_tracing hrest s₃) fun _ s' _ hs' => hfinal s' (hs₃.trans _ _ _ hs')

/-- A reference that was delivered may be retained. -/
theorem wp_nxSlotRefRetain_remains {self : Option SlotId} {i : ℕ}
    (hok : RetainsDelivered s (.enter (.retain self m i))) :
    wp RetainsDelivered (tracing r) true (nxSlotRefRetain self m i) s fun _ s' _ => Remains r s s' := by
  refine wp_imp fun hs => wp_atom_bind.mpr fun answer _ => ?_
  have hdone : s.Origins r ∧ s.log ⊆ s.log := ⟨hs, List.Subset.refl _⟩
  cases self with
  | none => exact hdone
  | some self =>
    have hreceived : s.Received self m := by
      rcases hok with ⟨c, hmem⟩ | ⟨-, src, hmem⟩
      · exact hs.delivered self c m hmem
      · exact ⟨_, hmem, src, .inl rfl⟩
    cases hcap : (s.exec answer (.capOf m i)).2 with
    | none => exact hdone
    | some cap =>
      refine wp_ite.mpr ⟨fun _ => hdone, fun hkind => wp_ite.mpr ⟨fun _ => hdone, fun _ => ?_⟩⟩
      refine wp_ite.mpr ⟨fun _ => hdone, fun _ => wp_atom_bind.mpr
        fun callocConn _ => wp_atom_bind.mpr fun callocNode _ => ?_⟩
      refine wp_proc_bind.mpr fun _ s₁ st hreg => ?_
      have hlinks : ∀ src t, RegCall.Links
          (.connectionRegister (some self) cap.slotRef .async false .queue callocConn callocNode) src t →
          WasSent r s.log src t := by
        intro src t hlink
        cases href : cap.slotRef with
        | none => cases href ▸ hlink
        | some target =>
          rw [href] at hlink
          obtain ⟨rfl, rfl⟩ := IpcEvent.linked.inj (mem_singleton.mp hlink)
          exact hs.wasSent hreceived (carries_of_capOf hcap (not_not.mp hkind) href)
      obtain ⟨h₁, hsub₁⟩ := hreg rfl (fun _ hcall => IpcProc.reg.inj hcall ▸ hlinks) hs
      have hclaim : Prog.All (Tracing r) (atom (.claim m i) >>= fun _ => (pure nxOk : IpcM ℤ)) :=
        all_op (tracing_aside _ rfl) fun _ => trivial
      refine wp_ite.mpr ⟨fun _ => wp_mono (wp_of_tracing hclaim s₁) fun _ s' _ hs' => ?_,
        fun _ => ⟨h₁, hsub₁⟩⟩
      exact ⟨(hs' h₁).1, List.Subset.trans hsub₁ (hs' h₁).2⟩

/-- A call of whoever keeps to what they are sent. -/
theorem wp_prog_remains {call : IpcCall} (hok : RetainsDelivered s (.enter call)) :
    wp RetainsDelivered (tracing r) true call.prog s fun _ s' _ => Remains r s s' := by
  have hproc : ∀ {f : IpcProc}, (∀ call, f ≠ .reg call) → Tracing r (.proc f) :=
    fun hf => tracing_proc fun call hcall => absurd hcall (hf call)
  have hcall : ∀ {call : RegCall}, (∀ src t, ¬ call.Links src t) → Tracing r (.proc (.reg call)) := by
    intro call hlinks
    exact tracing_proc fun call' heq => IpcProc.reg.inj heq ▸ hlinks
  have hfw : ∀ o : FwOp, (∀ call, o = .reg call → ∀ src t, ¬ call.Links src t) →
      Prog.All (Tracing r) (fwOp o) := by
    intro o hlinks
    exact all_fwOp tracing_aside tracing_callback (fun _ _ => hproc fun _ => nofun)
      (fun _ => hproc fun _ => nofun) o fun call heq => hcall (hlinks call heq)
  cases call with
  | fw call =>
    refine wp_of_tracing ?_ s
    cases call with
    | reg call =>
      have hcalls : Prog.All (fun o : FwOp => o = .reg call) (regCall call) :=
        all_op rfl fun _ => trivial
      refine hcalls.interp fun o ho => hfw o ?_
      rintro call' rfl
      exact FwOp.reg.inj ho ▸ hok
    | verb v c =>
      refine (ofVerb_verb v c).interp fun o ho => hfw o ?_
      rintro call rfl src t hlink
      cases call <;> first | exact ho.elim | cases hlink
    | recompose plan => exact hok.elim
  | send src dst caps =>
    refine wp_of_tracing ?_ s
    exact all_op (tracing_atom fun _ _ => .same rfl rfl rfl) fun _ =>
      all_op (hproc fun _ => nofun) fun rc => all_op (tracing_told _ rc) fun _ => trivial
  | dispatch slot max | flush dst =>
    refine wp_of_tracing ?_ s
    exact all_op (hproc fun _ => nofun) fun _ => trivial
  | retain self m i => exact wp_nxSlotRefRetain_remains hok
  | release self target =>
    refine wp_of_tracing ?_ s
    refine all_bind ?_ fun _ => trivial
    unfold nxSlotRefRelease
    split
    · refine all_op (tracing_aside _ rfl) fun reg => ?_
      split
      · trivial
      · exact all_op (hcall nofun) fun _ => trivial
    · trivial

/-- **The contract is kept.** -/
theorem tracing_kept : (tracing r).Kept RetainsDelivered where
  body := by
    intro chk f s
    refine wp_imp fun hchk => wp_imp fun hlinks => ?_
    subst hchk
    have hproc : ∀ {f : IpcProc}, (∀ call, f ≠ .reg call) → Tracing r (.proc f) :=
      fun hf => tracing_proc fun call hcall => absurd hcall (hf call)
    cases f with
    | api call =>
      refine wp_atom_bind.mpr fun answer hok => wp_mono (wp_prog_remains ((hok rfl).congr rfl rfl))
        fun _ s' _ => ?_
      have henter : Remains r s (s.exec answer (.enter call)).1 := .same rfl rfl rfl
      exact henter.trans _ _ _
    | reg call =>
      refine wp_atom_bind.mpr fun answer _ => ?_
      have hreg : Remains r s (s.exec answer (.reg call)).1 := .reg (hlinks call rfl) answer
      refine wp_ite.mpr ⟨fun _ => wp_callback_bind.mpr fun s₁ _ hrely => ?_, fun _ => hreg⟩
      exact hreg.trans _ _ _ hrely
    | nxIpcSend m => exact wp_doSend_remains _ m s
    | nxIpcDispatch slot max =>
      exact wp_of_tracing (all_nxIpcDispatch (tracing_aside _ rfl) (fun _ _ => hproc fun _ => nofun)
        slot max) s
    | dispatchLoop slot left => exact wp_dispatchLoop_remains slot left s
    | nxIpcFlushHoldQueue dst =>
      cases dst with
      | none => exact .refl r s
      | some t =>
        refine wp_of_tracing ?_ s
        exact all_op (tracing_atom fun _ _ => .same rfl rfl rfl) fun _ =>
          all_op (hproc fun _ => nofun) fun _ =>
            all_perform (tracing_atom fun _ _ => .same rfl rfl rfl)
    | flushLoop =>
      have hseek : Tracing r (.atom .flushSeek) := tracing_atom fun s _ => (flushSeek_sought s).remains
      have hfree : Tracing r (.atom .freeEntry) := tracing_atom fun s _ => freeEntry_remains s
      refine wp_of_tracing ?_ s
      refine all_op hseek fun found => all_ite ?_ trivial
      exact all_op (hproc fun _ => nofun) fun _ => all_op hfree fun _ =>
        all_perform (hproc fun _ => nofun)
    | replay =>
      have hdequeue : Tracing r (.atom .holdDequeue) :=
        tracing_atom fun s _ => (holdDequeue_dequeued s).remains
      refine wp_of_tracing ?_ s
      refine all_op hdequeue fun next => ?_
      cases next with
      | none => trivial
      | some m =>
        exact all_op (hproc fun _ => nofun) fun _ => all_perform (hproc fun _ => nofun)
  exported := by
    rintro - ⟨call, rfl⟩ s tr s' res h
    exact h rfl fun _ => nofun
  refl := .refl r
  trans := Remains.trans

end Bodies

/-! ### The result -/

/-- A message goes on only if its sender has, at that moment, a connection to every slot that it
carries a reference to. -/
def SendsOwn (s : Ipc) : IpcAtom → Prop
  | .route src dst m => ∀ answer, (s.route src dst m answer).2 = .accepted ∨
      (s.route src dst m answer).2 = .invoke → ∀ t, m.Carries t → ∃ c, s.reg.IsEdge src t c
  | _ => True

theorem sendsOwn (hcons : Consistent s.reg) (a : IpcAtom) : SendsOwn s a := by
  cases a with
  | route src dst m =>
    intro answer hroute t ht
    have hrouted := route_routed s src dst m answer
    generalize s.route src dst m answer = res at hroute hrouted
    cases hrouted with
    | refused e => simp at hroute
    | held hop | heldFirst hop => exact hop.carries hcons ht
    | redirect => simp at hroute
    | invoked hop | queued hop | dispatched hop => exact hop.carries hcons ht
  | _ => trivial

/-- Nothing is under way: nothing was logged, and inboxes are empty. -/
structure Ipc.Fresh (s : Ipc) : Prop where
  consistent : Consistent s.reg
  log : s.log = []
  inbox : ∀ slot, s.inboxOf slot = []

theorem Ipc.Fresh.origins (h : s.Fresh) : s.Origins s.reg where
  consistent := h.consistent
  edges _ _ _ hc := .wired hc
  inbox slot m hm := by
    rw [h.inbox slot] at hm
    cases hm
  delivered slot c m hm := by
    rw [h.log] at hm
    cases hm
  sent pre ev post src dst m hlog := by simp [h.log] at hlog
  linked pre post src t hlog := by simp [h.log] at hlog

/-- **In every run in which components retain only what was delivered to them**, senders have
connections to what they pass on when they do; whenever a connection is made, its slot was sent a
reference before by a slot that could reach the other; and every connection goes back, from message
to message, to one that was there at the start. -/
theorem edges_traced {α : Type} {q : IpcM α} (hq : Prog.All ipc.Exported q) {s s' : Ipc}
    {tr : ipc.Trace} {a : α} (hs : s.Fresh) (hrun : Runs ipc RetainsDelivered true q s tr s' a) :
    Runs ipc SendsOwn true q s tr s' a ∧
      (∀ pre post src t, s'.log = pre ++ .linked src t :: post → WasSent s.reg pre src t) ∧
      ∀ src t c, s'.reg.IsEdge src t c → Traced s.reg s'.log src t := by
  obtain ⟨halways, -⟩ := hrun.always (I := fun s : Ipc => Consistent s.reg) (W := fun _ => True)
    (fun _ => trivial)
    (fun f => all_true _) (fun s o s' r _ _ hstep => staysConsistent_step hstep) (all_true q)
      hs.consistent
  obtain ⟨h', -⟩ := hrun.sound tracing_kept (tracing_kept.wp_exported hq s) hs.origins
  exact ⟨halways.mono fun s o hso => sendsOwn hso.2 o, h'.linked, h'.edges⟩

/-- Three slots, and connections from slot `1` to the others. -/
def wireUp : List IpcCall :=
  plugIn 1 7 ++ plugIn 2 8 ++ plugIn 3 9 ++ [connect 1 2 .async .queue, connect 1 3 .async .queue]

/-- The state to start from. -/
def wiredUp : Ipc where
  reg := (evalState quiet 200 (makeCalls wireUp ()) namedBoot).reg

/-- Retaining what was delivered, and no calls of the framework. -/
def allowDelivered (s : Ipc) : IpcAtom → Bool
  | .enter (.retain (some self) m _) => s.log.any fun ev =>
    match ev with
    | .delivered slot _ m' => decide (slot = self ∧ m' = m)
    | _ => false
  | .enter (.fw _) => false
  | _ => true

theorem retainsDelivered_of_allow {a : IpcAtom} (h : allowDelivered s a = true) :
    RetainsDelivered s a := by
  cases a with
  | enter call =>
    cases call with
    | retain self m i =>
      cases self with
      | none => trivial
      | some self =>
        obtain ⟨ev, hmem, hev⟩ := any_eq_true.mp h
        split at hev
        next slot c m' =>
          obtain ⟨rfl, rfl⟩ := of_decide_eq_true hev
          exact .inl ⟨c, hmem⟩
        next => cases hev
    | fw call => cases h
    | _ => trivial
  | _ => trivial

/-- The component that a message is handed to retains its first reference. -/
def retainsFirst : Driver ipc :=
  { driver fun _ c => match c with
      | .handleMsg _ m => ([.retain m.dstSlot m 0], nxOk)
      | c => ([], c.pass)
    with allow := allowDelivered }

/-- Slot `1` sends slot `2` a reference to slot `3`. -/
def passOn : List IpcCall := [.send (some 1) (some 2) [⟨.slotRef, some 3, false⟩], .dispatch (some 2) 1]

theorem edges_traced_passOn :
    let s := wiredUp
    ∃ tr s', (Runs ipc SendsOwn true (makeCalls passOn ()) s tr s' () ∧
        (∀ pre post src t, s'.log = pre ++ .linked src t :: post → WasSent s.reg pre src t) ∧
        ∀ src t c, s'.reg.IsEdge src t c → Traced s.reg s'.log src t) ∧
      findEdge s.reg 2 3 = none ∧ findEdge s'.reg 2 3 ≠ none := by
  obtain ⟨_, hsetup⟩ : ∃ tr, Runs ipc (fun _ _ => True) true (makeCalls wireUp ()) namedBoot tr
      (evalState quiet 200 (makeCalls wireUp ()) namedBoot) () := runs_driver 200 (by decide +kernel)
  have hwired := runs_consistent hsetup (show Consistent namedBoot.reg from consistent_boot _ _)
  have hcons : Consistent wiredUp.reg := hwired
  obtain ⟨tr, hrun⟩ : ∃ tr, Runs ipc RetainsDelivered true (makeCalls passOn ()) wiredUp tr
      (evalState retainsFirst 100 (makeCalls passOn ()) wiredUp) () :=
    runs_evalState (fun _ _ => .inr fun _ _ => retainsDelivered_of_allow)
      (fun _ _ _ => retainsDelivered_of_allow) (by decide +kernel)
  exact ⟨tr, _, edges_traced (makeCalls_exported _ _) ⟨hcons, rfl, fun _ => rfl⟩ hrun,
    by decide +kernel, by decide +kernel⟩

end Nonux.Framework
