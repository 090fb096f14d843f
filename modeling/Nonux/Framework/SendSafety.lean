import Nonux.Framework.MessageFate

/-!
# Sending is safe (`nx_ipc_send`)

A message that cannot be delivered where it is sent may be redirected, and redirected again, along
whatever fallbacks the slots have. The router gives up after the fifth attempt. At each of them it
looks up a connection from the sender and checks the capabilities against the connections there are
then, and it puts the message into an inbox or hands it to a handler only if the slot is not paused,
and on a hold queue only if it is and the connection says so.

`SafeStep` is what the router may do in the course of sending, and `nxIpcSend_safe` says that it
does nothing else, whatever hooks and handlers do meanwhile.
-/

namespace Nonux.Framework

open Nonux.Lib CallSys

/-! ### What the router may do -/

/-- The message, at a slot it has been sent or redirected to, over a connection from its source,
with its capabilities checked. -/
structure HopTo (r : Registry) (m m' : IpcMessage) (src dst : SlotId) (c : ConnId) : Prop where
  source : m.srcSlot = some src
  message : m' = { m with dstSlot := some dst }
  edge : r.IsEdge src dst c
  first : findEdge r src dst = some c
  caps : nxIpcScanSendCaps r src m' = .ok ()

/-- What the router may ask for when it sends `m`. -/
inductive SafeStep (m : IpcMessage) : Asked Ipc IpcAtom.Res IpcProc.Res IpcCallback.Res → Prop
  | hook {m' : IpcMessage} {abort : Bool} {s s' : Ipc} :
      SafeStep m ⟨.callback (.sendHook m'), abort, s, s'⟩
  /-- Nothing goes on a queue. -/
  | aside {a : IpcAtom} {r : a.Res} {s s' : Ipc} (hinbox : s'.inbox = s.inbox)
      (hdispatcher : s'.dispatcher = s.dispatcher) (hholds : s'.holds = s.holds) :
      SafeStep m ⟨.atom a, r, s, s'⟩
  /-- The message goes into the inbox of the slot, or on the queue of the dispatcher. -/
  | queued {src dst : SlotId} {c : ConnId} {m' : IpcMessage} {r : Ipc.Route} {s s' : Ipc}
      (hop : HopTo s.reg m m' src dst c) (hnone : s.reg.nxSlotPauseState (some dst) = .none)
      (hholds : s'.holds = s.holds) (hqueue : (s'.inbox = Function.update s.inbox dst
        (some (s.inboxOf dst ++ [m'])) ∧ s'.dispatcher = s.dispatcher) ∨
        (s'.inbox = s.inbox ∧ s'.dispatcher = s.dispatcher ++ [m'])) :
      SafeStep m ⟨.atom (.route src dst m'), r, s, s'⟩
  /-- The message goes on the hold queue of the two slots. -/
  | held {src dst : SlotId} {c : ConnId} {m' : IpcMessage} {r : Ipc.Route} {s s' : Ipc}
      (hop : HopTo s.reg m m' src dst c) (hpaused : s.reg.nxSlotPauseState (some dst) ≠ .none)
      (hpolicy : (s.reg.conn c).policy = .queue) (hinbox : s'.inbox = s.inbox)
      (hdispatcher : s'.dispatcher = s.dispatcher) (hholds : ∀ a b, heldOn s'.holds a b =
        heldOn s.holds a b ++ if src = a ∧ dst = b then [m'] else []) :
      SafeStep m ⟨.atom (.route src dst m'), r, s, s'⟩
  /-- The message is handed to the component in the slot. -/
  | handler {src dst : SlotId} {conn : ConnId} {c : CompId} {m' : IpcMessage} {rc : ℤ} {s s' : Ipc}
      (hop : HopTo s.reg m m' src dst conn) (hnone : s.reg.nxSlotPauseState (some dst) = .none)
      (hactive : (s.reg.slot dst).active = some c) : SafeStep m ⟨.callback (.handleMsg c m'), rc, s, s'⟩

/-- An attempt to route. -/
def isAttempt (e : Asked Ipc IpcAtom.Res IpcProc.Res IpcCallback.Res) : Bool :=
  match e.req with
  | .atom (.route _ _ _) => true
  | _ => false

theorem SafeStep.redirected {m : IpcMessage} {fb : SlotId} {e : Asked Ipc IpcAtom.Res IpcProc.Res IpcCallback.Res}
    (h : SafeStep { m with dstSlot := some fb } e) : SafeStep m e := by
  have hop : ∀ {r : Registry} {m' : IpcMessage} {src dst : SlotId} {c : ConnId},
      HopTo r { m with dstSlot := some fb } m' src dst c → HopTo r m m' src dst c :=
    fun hop => ⟨hop.source, hop.message, hop.edge, hop.first, hop.caps⟩
  cases h with
  | hook => exact .hook
  | aside hinbox hdispatcher hholds => exact .aside hinbox hdispatcher hholds
  | queued h hnone hholds hqueue => exact .queued (hop h) hnone hholds hqueue
  | held h hpaused hpolicy hinbox hdispatcher hholds => exact .held (hop h) hpaused hpolicy hinbox hdispatcher hholds
  | handler h hnone hactive => exact .handler (hop h) hnone hactive

/-- An attempt to route is safe, and if the handler is to be invoked, it may be. -/
theorem Routed.safe {s : Ipc} {src dst : SlotId} {m : IpcMessage} {res : Ipc × Ipc.Route}
    (hr : Routed s src dst m res) (hcons : Consistent s.reg) (hsrc : m.srcSlot = some src)
    (hdst : m.dstSlot = some dst) : SafeStep m ⟨.atom (.route src dst m), res.2, s, res.1⟩ ∧
      (res.2 = .invoke → (∃ c, HopTo s.reg m m src dst c) ∧ s.reg.nxSlotPauseState
        (some dst) = .none) := by
  have hmsg : m = { m with dstSlot := some dst } := by rw [← hdst]
  have hop : ∀ {c}, Hop s.reg src dst m c → HopTo s.reg m m src dst c :=
    fun hop => ⟨hsrc, hmsg, isEdge_of_findEdge hcons hop.edge, hop.edge, hop.caps⟩
  cases hr with
  | refused e => exact ⟨.aside rfl rfl rfl, nofun⟩
  | held h hpaused hpolicy hholds =>
    exact ⟨.held (hop h) hpaused hpolicy rfl rfl (holdEnqueue_eq_some hholds).heldOn, nofun⟩
  | heldFirst h hpaused hpolicy hholds =>
    refine ⟨.held (hop h) hpaused hpolicy rfl rfl fun a b => ?_, nofun⟩
    show heldOn (_ :: s.holds) a b = _
    rw [heldOn_cons]
    split_ifs with hab
    · rw [heldOn_eq_nil fun e he => hab.1 ▸ hab.2 ▸ holdEnqueue_eq_none hholds e he, List.nil_append]
    · rw [List.append_nil]
  | redirect => exact ⟨.aside rfl rfl rfl, nofun⟩
  | invoked h hnone => exact ⟨.aside rfl rfl rfl, fun _ => ⟨⟨_, hop h⟩, hnone⟩⟩
  | queued h hnone => exact ⟨.queued (hop h) hnone rfl (.inl ⟨rfl, rfl⟩), nofun⟩
  | dispatched h hnone => exact ⟨.queued (hop h) hnone rfl (.inr ⟨rfl, rfl⟩), nofun⟩

/-! ### Whole runs -/

/-- The registry stays consistent. -/
def StaysConsistent (s s' : Ipc) : Prop := Consistent s.reg → Consistent s'.reg

theorem staysConsistent_step {s s' : Ipc} {a : IpcAtom} {r : a.Res} (h : ipc.step s a s' r) :
    StaysConsistent s s' := by
  obtain ⟨answer, heq⟩ := h
  have hexec : StaysConsistent s (s.exec answer a).1 := by
    by_cases hreg : ∃ call, a = .reg call
    · obtain ⟨call, rfl⟩ := hreg
      exact fun hcons => hcons.next call
    · rw [StaysConsistent, (exec_frame answer s a).2 fun call heq => hreg ⟨call, heq⟩]
      exact id
  rwa [heq] at hexec

/-- The contract that it does. -/
def consistency : Contract ipc := .ofRel ipc StaysConsistent

theorem consistency_kept {ok : Ipc → IpcAtom → Prop} : consistency.Kept ok :=
  Contract.ofRel_kept (fun _ => id) (fun _ _ _ h h' => h' ∘ h) fun _ _ _ _ => staysConsistent_step

theorem runs_consistent {ok : Ipc → IpcAtom → Prop} {chk : Bool} {α : Type} {p : IpcM α}
    {s s' : Ipc} {tr : ipc.Trace} {a : α} (h : Runs ipc ok chk p s tr s' a)
    (hcons : Consistent s.reg) : Consistent s'.reg :=
  h.keeps (R := StaysConsistent) (fun _ => id) (fun _ _ _ h h' => h' ∘ h)
    (fun _ _ _ _ => staysConsistent_step) hcons

section Sending

variable {ok : Ipc → IpcAtom → Prop} {chk : Bool} {s : Ipc} {m : IpcMessage}

/-- At most so many attempts, and safe steps only. -/
def SafeTrace (m : IpcMessage) (attempts : ℕ) (tr : ipc.Trace) : Prop :=
  tr.countP isAttempt ≤ attempts ∧ ∀ e ∈ tr, SafeStep m e

/-- Invoking the handler of a slot that is not paused. -/
theorem wp_invokeHandler_safe {src dst : SlotId} {c : ConnId} (hop : HopTo s.reg m m src dst c)
    (hnone : s.reg.nxSlotPauseState (some dst) = .none) :
    wp ok consistency chk (invokeHandler dst m) s fun tr _ _ => SafeTrace m 0 tr := by
  refine wp_atom_bind_of (fun _ => handlerFor_handled s dst m) fun s₁ handler hhandled _ => ?_
  cases hhandled with
  | nobody => exact ⟨le_rfl, by simpa using .aside rfl rfl rfl⟩
  | component hactive =>
    refine fun s₂ rc _ => ⟨le_rfl, ?_⟩
    simp only [List.mem_cons, List.not_mem_nil, or_false, forall_eq_or_imp, forall_eq]
    exact ⟨.aside rfl rfl rfl, .handler hop hnone hactive⟩

/-- One attempt, and then what a redirection does. -/
theorem wp_doSendOnce_safe {redirected : Option SlotId → IpcM ℤ} {attempts : ℕ}
    (hcons : Consistent s.reg) (hredirected : ∀ s' fallback, Consistent s'.reg →
      wp ok consistency chk (redirected fallback) s' fun tr _ _ => SafeTrace m attempts tr) :
    wp ok consistency chk (doSendOnce m redirected) s fun tr _ _ => SafeTrace m (attempts + 1) tr := by
  unfold doSendOnce
  split
  next src dst hsrc hdst =>
    refine wp_callback_bind.mpr fun s₁ abort hrely => ?_
    have hcons₁ : Consistent s₁.reg := hrely hcons
    refine wp_ite.mpr ⟨fun _ => wp_atom_bind.mpr fun _ _ => ⟨Nat.zero_le _, ?_⟩, fun _ => ?_⟩
    · simp only [List.mem_cons, List.not_mem_nil, or_false, forall_eq_or_imp, forall_eq]
      exact ⟨.hook, .aside rfl rfl rfl⟩
    · refine wp_atom_bind_of (route_routed s₁ src dst m) fun s₂ route hrouted _ => ?_
      obtain ⟨hsafe, hinvoke⟩ := hrouted.safe hcons₁ hsrc hdst
      have hframe := hrouted.frame
      -- what follows the hook and the attempt
      have hrest : ∀ tr, SafeTrace m attempts tr → SafeTrace m (attempts + 1)
          (⟨.callback (.sendHook m), abort, s, s₁⟩ :: ⟨.atom (.route src dst m), route, s₁,
            s₂⟩ :: tr) := by
        intro tr htr
        refine ⟨?_, ?_⟩
        · simpa [List.countP_cons, isAttempt] using htr.1
        · simp only [List.mem_cons, forall_eq_or_imp]
          exact ⟨.hook, hsafe, htr.2⟩
      have hnil : SafeTrace m attempts [] := ⟨Nat.zero_le _, by simp⟩
      cases route with
      | failed e | accepted => exact hrest [] hnil
      | redirect fallback =>
        have hcons₂ : Consistent s₂.reg := hframe.reg ▸ hcons₁
        exact wp_mono (hredirected s₂ fallback hcons₂) fun tr _ _ htr => hrest tr htr
      | invoke =>
        obtain ⟨⟨c, hop⟩, hnone⟩ := hinvoke rfl
        rw [← hframe.reg] at hop hnone
        refine wp_mono (wp_invokeHandler_safe hop hnone) fun tr _ _ htr => hrest tr ⟨?_, htr.2⟩
        exact htr.1.trans (Nat.zero_le _)
  next =>
    refine wp_atom_bind.mpr fun _ _ => ⟨Nat.zero_le _, ?_⟩
    simpa using .aside rfl rfl rfl

theorem wp_refuseWith_safe {e : Err} {attempts : ℕ} :
    wp ok consistency chk (refuseWith m e) s fun tr _ _ => SafeTrace m attempts tr := by
  refine wp_atom_bind.mpr fun _ _ => ⟨Nat.zero_le _, ?_⟩
  simpa using .aside rfl rfl rfl

/-- Sending makes at most so many attempts more, and takes safe steps only. -/
theorem wp_doSend_safe (left : ℕ) (hcons : Consistent s.reg) :
    wp ok consistency chk (doSend left m) s fun tr _ _ => SafeTrace m (left + 1) tr := by
  induction left generalizing m s with
  | zero => exact wp_doSendOnce_safe hcons fun _ _ _ => wp_refuseWith_safe
  | succ left ih =>
    refine wp_doSendOnce_safe hcons fun s' fallback hcons' => ?_
    cases fallback with
    | none => exact wp_refuseWith_safe
    | some fb =>
      refine wp_mono (ih (m := { m with dstSlot := some fb }) hcons') fun tr _ _ htr => ?_
      exact ⟨htr.1, fun e he => (htr.2 e he).redirected⟩

end Sending

/-- The message is in no inbox, not with the dispatcher and on no hold queue. -/
def OnNoQueue (s : Ipc) (id : ℕ) : Prop :=
  (∀ slot, ∀ m ∈ s.inboxOf slot, m.id ≠ id) ∧ (∀ m ∈ s.dispatcher, m.id ≠ id) ∧
    ∀ item ∈ s.waiting, item.2.2.id ≠ id

/-- **Sending a message that is in hand**, with hooks and handlers that do what they like: there are
at most five attempts, every step is safe, and if an error is returned and no handler ran, the
message is on no queue. -/
theorem nxIpcSend_safe {ok : Ipc → IpcAtom → Prop} {chk : Bool} {m : IpcMessage} {s s' : Ipc}
    {tr : ipc.Trace} {rc : ℤ} (hcons : Consistent s.reg) (hacc : s.Accounted) (hand : s.InHand m.id)
    (hrun : Runs ipc ok chk (ipcBody (.nxIpcSend m)) s tr s' rc) :
    tr.countP isAttempt ≤ 5 ∧ (∀ e ∈ tr, SafeStep m e) ∧
      (rc ≠ nxOk → (∀ e ∈ tr, ¬ HandlerCall e) → OnNoQueue s' m.id) := by
  obtain ⟨hcount, hsafe⟩ : SafeTrace m 5 tr := hrun.sound consistency_kept
    (wp_doSend_safe nxIpcRedirectDepthMax hcons)
  obtain ⟨hkept, -, -, herror, -⟩ : Sent m s tr s' rc := hrun.sound fates_kept (wp_doSend _ hacc hand)
  refine ⟨hcount, hsafe, fun hne hno => ?_⟩
  have hoff := herror hne hno
  exact ⟨fun slot m' hm' => hoff.not_mem_inbox hkept.accounted hm',
    fun m' hm' => hoff.not_mem_dispatcher hkept.accounted hm',
      fun item hitem => hoff.not_mem_waiting hkept.accounted hitem⟩

/-- Slot `2` is paused and has slot `3` as its fallback, and the connection to it redirects. -/
def detour : List IpcCall :=
  plugIn 1 7 ++ plugIn 2 8 ++ plugIn 3 9 ++ [connect 1 2 .async .redirect, connect 1 3 .async .queue,
    .fw (.reg (.slotSetFallback (some 2) (some 3))), .fw (.verb .pause (some 8))]

/-- The state after that. -/
def detoured : Ipc := evalState quiet 300 (makeCalls detour ()) namedBoot

/-- A message for slot `2` is made. -/
def atDetour : Ipc := { detoured with nextMessage := detoured.nextMessage + 1 }

theorem nxIpcSend_safe_detour :
    let m : IpcMessage := ⟨0, some 1, some 2, []⟩
    ∃ (tr : ipc.Trace) (s' : Ipc), (tr.countP isAttempt ≤ 5 ∧ (∀ e ∈ tr, SafeStep m e) ∧
      (nxOk ≠ nxOk → (∀ e ∈ tr, ¬ HandlerCall e) → OnNoQueue s' m.id)) ∧ s'.inboxOf
        3 = [⟨0, some 1, some 3, []⟩] := by
  obtain ⟨tr₀, hsetup⟩ : ∃ tr, Runs ipc (fun _ _ => True) true (makeCalls detour ()) namedBoot tr
    detoured () :=
    runs_driver 300 (by decide +kernel)
  have hcons : Consistent detoured.reg :=
    runs_consistent hsetup (show Consistent namedBoot.reg from consistent_boot _ _)
  obtain ⟨hkept, -⟩ := hsetup.sound fates_kept (fates_kept.wp_exported (makeCalls_exported _ _) _)
    (accounted_boot true _ _)
  obtain ⟨hkept', -, hand, -⟩ := message_kept hkept.accounted
  have hid : detoured.nextMessage = 0 := by decide +kernel
  have hand' : atDetour.InHand 0 := hid ▸ hand
  obtain ⟨tr, hrun⟩ : ∃ tr, Runs ipc (fun _ _ => True) true
    (ipcBody (.nxIpcSend ⟨0, some 1, some 2, []⟩)) atDetour tr
    (evalState quiet 50 (ipcBody (.nxIpcSend ⟨0, some 1, some 2, []⟩)) atDetour) nxOk := runs_driver
      50 (by decide +kernel)
  have hcons' : Consistent atDetour.reg := hcons
  have hacc : atDetour.Accounted := hkept'.accounted
  exact ⟨tr, _, nxIpcSend_safe hcons' hacc hand' hrun, by decide +kernel⟩

end Nonux.Framework
