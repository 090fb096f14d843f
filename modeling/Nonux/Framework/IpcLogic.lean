import Nonux.Framework.Ipc

/-!
# Reasoning about the router's programs

The rules of `Lib.CallSys` for the programs of the router, one for each kind of request; what the
functions of the router ask for, for those properties that only need to know that; and a way to run
programs, with callbacks that make the calls they are told to.
-/

namespace Nonux.Framework

open Nonux.Lib
open Prog hiding pure

open IpcM (atom proc callback)

/-! ### Reasoning about programs of the router -/

section Wp

open CallSys

variable {ok : Ipc → IpcAtom → Prop} {K : Contract ipc} {chk : Bool} {α : Type} {s : Ipc}
  {Q : ipc.Trace → Ipc → α → Prop}

theorem wp_atom_bind {a : IpcAtom} {k : a.Res → IpcM α} : wp ok K chk (atom a >>= k) s Q ↔
    ∀ answer, (chk = true → ok s a) → wp ok K chk (k (s.exec answer a).2) (s.exec answer a).1
      fun tr => Q (⟨.atom a, (s.exec answer a).2, s, (s.exec answer a).1⟩ :: tr) := by
  constructor
  · intro h answer hok
    exact h _ _ hok ⟨answer, rfl⟩
  · rintro h s₁ r hok ⟨answer, heq⟩
    have hnext := h answer hok
    rw [heq] at hnext
    exact hnext

/-- The same, for a step of which one knows something. -/
theorem wp_atom_bind_of {a : IpcAtom} {k : a.Res → IpcM α} {I : Ipc × a.Res → Prop}
    (hI : ∀ answer, I (s.exec answer a)) (h : ∀ s₁ r, I (s₁, r) → (chk = true → ok s a) →
      wp ok K chk (k r) s₁ fun tr => Q (⟨.atom a, r, s, s₁⟩ :: tr)) :
    wp ok K chk (atom a >>= k) s Q :=
  wp_atom_bind.mpr fun answer hok => h _ _ (hI answer) hok

theorem wp_proc_bind {f : IpcProc} {k : f.Res → IpcM α} : wp ok K chk (proc f >>= k) s Q ↔
    ∀ tr₁ s₁ r, K.spec chk f s tr₁ s₁ r →
      wp ok K chk (k r) s₁ fun tr => Q (⟨.proc f, r, s, s₁⟩ :: (tr₁ ++ tr)) :=
  Iff.rfl

theorem wp_callback_bind {c : IpcCallback} {k : c.Res → IpcM α} : wp ok K chk (callback c >>= k) s Q ↔
    ∀ s₁ r, K.rely s s₁ → wp ok K chk (k r) s₁ fun tr => Q (⟨.callback c, r, s, s₁⟩ :: tr) := Iff.rfl

theorem wp_proc {f : IpcProc} {Q : ipc.Trace → Ipc → f.Res → Prop} : wp ok K chk (proc f) s Q ↔
    ∀ tr₁ s₁ r, K.spec chk f s tr₁ s₁ r → Q (⟨.proc f, r, s, s₁⟩ :: (tr₁ ++ [])) s₁ r := Iff.rfl

theorem wp_ite {c : Prop} [Decidable c] {p q : IpcM α} : wp ok K chk (if c then p else q) s Q ↔
    (c → wp ok K chk p s Q) ∧ (¬ c → wp ok K chk q s Q) := by
  by_cases h : c
  · simp [h]
  · simp [h]

end Wp

/-! ### What programs ask for -/

/-- Steps that change neither the registry nor a queue. -/
def IpcAtom.aside : IpcAtom → Bool
  | .registry => true
  | .ask => true
  | .hosted => true
  | .enter _ => true
  | .capOf _ _ => true
  | .claim _ _ => true
  | _ => false

section Asks

variable {P : Req IpcAtom IpcProc IpcCallback → Prop}
  (haside : ∀ a : IpcAtom, a.aside = true → P (.atom a)) (hcallback : ∀ c, P (.callback c))

include hcallback in
theorem all_regCallEmit {call : RegCall} (hcall : P (.atom (.reg call))) :
    Prog.All P (regCallEmit call) :=
  all_op hcall fun _ =>
    all_ite (all_op (hcallback _) fun _ => trivial) trivial

include haside hcallback

variable (hdispatch : ∀ slot max, P (.proc (.nxIpcDispatch slot max)))
  (hflush : ∀ dst, P (.proc (.nxIpcFlushHoldQueue dst)))

include hdispatch hflush

theorem all_fwOp (o : FwOp) (hreg : ∀ call, o = .reg call → P (.proc (.reg call))) :
    Prog.All P (fwOp o) := by
  cases o with
  | registry => exact all_perform (haside _ rfl)
  | reg call => exact all_perform (hreg call rfl)
  | hook point c next | op o c => exact all_perform (hcallback _)
  | deadlineExceeded c => exact all_perform (haside _ rfl)
  | drain s =>
    refine all_op (haside _ rfl) fun hosted => all_ite ?_ (all_perform (hcallback _))
    exact all_op (hdispatch _ _) fun _ => trivial
  | flush s => exact all_perform (hflush _)
  | notify c changed old new stateLost => exact all_perform (hcallback _)
  | calloc => exact all_perform (haside _ rfl)

variable (hreg : ∀ call, P (.proc (.reg call)))

include hreg

/-- What a call asks for, except for a call that sends. -/
theorem all_prog (call : IpcCall) (hsend : ∀ src dst caps, call ≠ .send src dst caps) :
    Prog.All P call.prog := by
  cases call with
  | fw call => exact all_interp (fun o => all_fwOp haside hcallback hdispatch hflush o
      fun call _ => hreg call) _
  | send src dst caps => exact absurd rfl (hsend src dst caps)
  | dispatch slot max => exact all_op (hdispatch _ _) fun _ => trivial
  | flush dst => exact all_op (hflush _) fun _ => trivial
  | retain self m i =>
    refine all_op (haside _ rfl) fun cap => ?_
    split
    · refine all_ite trivial (all_ite trivial (all_ite trivial ?_))
      refine all_op (haside _ rfl) fun _ => ?_
      refine all_op (haside _ rfl) fun _ => ?_
      refine all_op (hreg _) fun _ => all_ite ?_ trivial
      exact all_op (haside _ rfl) fun _ => trivial
    · trivial
  | release self target =>
    refine all_bind ?_ fun _ => trivial
    unfold nxSlotRefRelease
    split
    · refine all_op (haside _ rfl) fun r => ?_
      split
      · trivial
      · exact all_op (hreg _) fun _ => trivial
    · trivial

variable (hmessage : ∀ src dst caps, P (.atom (.message src dst caps)))
  (hsend : ∀ m, P (.proc (.nxIpcSend m))) (htold : ∀ m rc, P (.atom (.told m rc)))

include hmessage hsend htold

/-- What any call asks for. -/
theorem all_call (call : IpcCall) : Prog.All P call.prog := by
  by_cases h : ∃ src dst caps, call = .send src dst caps
  · obtain ⟨src, dst, caps, rfl⟩ := h
    exact all_op (hmessage src dst caps) fun m => all_op (hsend m) fun rc => all_op (htold m rc)
      fun _ => trivial
  · exact all_prog haside hcallback hdispatch hflush hreg call fun src dst caps heq => h
      ⟨src, dst, caps, heq⟩

end Asks

section Sends

variable {P : Req IpcAtom IpcProc IpcCallback → Prop} (hcallback : ∀ c, P (.callback c))
  (hhandler : ∀ dst m, P (.atom (.handlerFor dst m)))

include hcallback hhandler

theorem all_invokeHandler (dst : SlotId) (m : IpcMessage) : Prog.All P (invokeHandler dst m) := by
  refine all_op (hhandler dst m) fun handler => ?_
  cases handler with
  | none => trivial
  | some c => exact all_perform (hcallback _)

variable (hdrop : ∀ m, P (.atom (.drop m))) (hrefuse : ∀ m, P (.atom (.refuse m)))

include hdrop hrefuse

theorem all_doSendOnce {m : IpcMessage} {redirected : Option SlotId → IpcM ℤ}
    (hroute : ∀ src dst, m.srcSlot = some src → m.dstSlot = some dst → P (.atom (.route src dst m)))
    (h : ∀ fallback, Prog.All P (redirected fallback)) : Prog.All P (doSendOnce m redirected) := by
  unfold doSendOnce
  split
  next src dst hsrc hdst =>
    refine all_op (hcallback _) fun abort => all_ite ?_ ?_
    · exact all_op (hdrop m) fun _ => trivial
    · refine all_op (hroute src dst hsrc hdst) fun route => ?_
      cases route with
      | failed e => trivial
      | accepted => trivial
      | redirect fallback => exact h fallback
      | invoke => exact all_invokeHandler hcallback hhandler dst m
  next => exact all_op (hrefuse m) fun _ => trivial

/-- What sending asks for: it routes the message with the source and the capabilities that it
has. -/
theorem all_doSend (left : ℕ) {m : IpcMessage}
    (hroute : ∀ src dst m', m.srcSlot = some src → m' = { m with dstSlot := some dst } →
      P (.atom (.route src dst m'))) :
    Prog.All P (doSend left m) := by
  have hwith : ∀ m e, Prog.All P (refuseWith m e) := fun m e => all_op (hrefuse m) fun _ => trivial
  have hhere : ∀ src dst, m.srcSlot = some src → m.dstSlot = some dst → P (.atom (.route src dst m)) :=
    fun src dst hsrc hdst => hroute src dst m hsrc (by rw [← hdst])
  induction left generalizing m with
  | zero => exact all_doSendOnce hcallback hhandler hdrop hrefuse hhere fun _ => hwith m .eloop
  | succ left ih =>
    refine all_doSendOnce hcallback hhandler hdrop hrefuse hhere fun fallback => ?_
    cases fallback with
    | none => exact hwith m .enoent
    | some fb =>
      exact ih (m := { m with dstSlot := some fb }) hroute fun src dst hsrc hdst => hroute src dst _
        hsrc (by rw [← hdst])

omit hrefuse in
/-- What the loop of dispatching asks for. -/
theorem all_dispatchLoop {slot : SlotId} (hdequeue : P (.atom (.dequeue slot))) (left : ℕ)
    (hloop : ∀ l < left, P (.proc (.dispatchLoop slot l))) : Prog.All P (dispatchLoop slot left) := by
  cases left with
  | zero => trivial
  | succ left =>
    refine all_op hdequeue fun next => ?_
    cases next with
    | none => trivial
    | some m =>
      have hrest : Prog.All P
          (proc (.dispatchLoop slot left) >>= fun n : ℕ => (pure (n + 1) : IpcM ℕ)) :=
        all_op (hloop left (Nat.lt_succ_self left)) fun _ => trivial
      refine all_op (hcallback _) fun abort => all_ite ?_ ?_
      · exact all_op (hdrop m) fun _ => hrest
      · exact all_bind (all_invokeHandler hcallback hhandler slot m) fun rc => all_ite trivial hrest

end Sends

theorem all_nxIpcDispatch {P : Req IpcAtom IpcProc IpcCallback → Prop} (hhosted : P (.atom .hosted))
    (hloop : ∀ slot left, P (.proc (.dispatchLoop slot left))) (slot : Option SlotId) (max : ℕ) :
    Prog.All P (nxIpcDispatch slot max) := by
  cases slot with
  | none => trivial
  | some slot =>
    exact all_op hhosted fun _ => all_ite (all_perform (hloop slot max)) trivial

/-- A message is routed from the slots that it says. -/
def WellRouted : Req IpcAtom IpcProc IpcCallback → Prop
  | .atom (.route src dst m) => m.srcSlot = some src ∧ m.dstSlot = some dst
  | _ => True

/-- **The functions route messages from the slots that they say.** -/
theorem wellRouted_ipcBody (f : IpcProc) : Prog.All WellRouted (ipcBody f) := by
  have haside : ∀ a : IpcAtom, a.aside = true → WellRouted (.atom a) := by
    intro a ha
    cases a <;> cases ha <;> trivial
  have hcallback : ∀ c, WellRouted (.callback c) := fun _ => trivial
  cases f with
  | api call =>
    exact all_op trivial fun _ => all_call haside hcallback (fun _ _ => trivial) (fun _ => trivial)
      (fun _ => trivial) (fun _ _ _ => trivial) (fun _ => trivial) (fun _ _ => trivial) call
  | reg call => exact all_regCallEmit hcallback trivial
  | nxIpcSend m =>
    refine all_doSend hcallback (fun _ _ => trivial) (fun _ => trivial) (fun _ => trivial) _ ?_
    rintro src dst m' hsrc rfl
    exact ⟨hsrc, rfl⟩
  | nxIpcDispatch slot max => exact all_nxIpcDispatch trivial (fun _ _ => trivial) slot max
  | dispatchLoop slot left =>
    exact all_dispatchLoop hcallback (fun _ _ => trivial) (fun _ => trivial) trivial left
      fun _ _ => trivial
  | nxIpcFlushHoldQueue dst =>
    cases dst with
    | none => trivial
    | some t =>
      exact all_op trivial fun _ => all_op trivial fun _ =>
        all_perform trivial
  | flushLoop =>
    refine all_op trivial fun found => all_ite ?_ trivial
    exact all_op trivial fun _ => all_op trivial fun _ =>
      all_perform trivial
  | replay =>
    refine all_op trivial fun next => ?_
    cases next with
    | none => trivial
    | some m => exact all_op trivial fun _ => all_perform trivial

/-! ### Running programs of the router -/

/-- Make the calls, then answer. -/
def makeCalls {α : Type} (calls : List IpcCall) (answer : α) : IpcM α :=
  match calls with
  | [] => pure answer
  | call :: calls => do
    let _ : ℤ ← proc (.api call)
    makeCalls calls answer

theorem makeCalls_exported {α : Type} (calls : List IpcCall) (answer : α) :
    Prog.All ipc.Exported (makeCalls calls answer) := by
  induction calls with
  | nil => trivial
  | cons call calls ih => exact ⟨⟨call, rfl⟩, fun _ => ih⟩

/-- Memory is there, and each callback makes the calls it is told to. -/
def driver (plan : Ipc → (c : IpcCallback) → List IpcCall × c.Res) : CallSys.Driver ipc where
  atom s a := s.exec true a
  callback s c := makeCalls (plan s c).1 (plan s c).2
  step_atom _ _ := ⟨true, rfl⟩
  exported _ _ := makeCalls_exported _ _

/-- What a program comes to with such callbacks is a run. -/
theorem runs_driver {plan : Ipc → (c : IpcCallback) → List IpcCall × c.Res} {chk : Bool} {α : Type}
    {p : IpcM α} {s : Ipc} {a : α} (n : ℕ)
    (h : (CallSys.eval (driver plan) n α p s).map (·.2) = some a) :
    ∃ tr, CallSys.Runs ipc (fun _ _ => True) chk p s tr (CallSys.evalState (driver plan) n p s) a :=
  CallSys.runs_evalState (fun _ _ => .inr fun _ _ _ => trivial) (fun _ _ _ _ => trivial) h

/-- What a callback answers that lets everything pass. -/
def IpcCallback.pass : (c : IpcCallback) → c.Res
  | .lifecycle _ _ _ => false
  | .op _ _ => nxOk
  | .notify _ _ _ _ _ => ()
  | .event _ => ()
  | .sendHook _ => false
  | .recvHook _ _ => false
  | .handleMsg _ _ => nxOk
  | .yield => ()

/-- Callbacks let everything pass and do nothing. -/
def quiet : CallSys.Driver ipc := driver fun _ c => ([], c.pass)

/-- The same then, whatever is asked of callbacks. -/
theorem runs_quiet {ok : Ipc → IpcAtom → Prop} {α : Type} {p : IpcM α} {s : Ipc} {a : α} (n : ℕ)
    (h : (CallSys.eval quiet n α p s).map (·.2) = some a) :
    ∃ tr, CallSys.Runs ipc ok false p s tr (CallSys.evalState quiet n p s) a :=
  CallSys.runs_evalState (fun _ c => .inl ⟨c.pass, rfl⟩) nofun h

/-- A state at boot in which slots and components have names and handle messages. -/
def namedBoot : Ipc :=
  bootIpc true (fun s => { name := some (toString s) })
    fun c => { manifestId := some "m", instanceId := some (toString c), ops := [.handleMsg] }

/-- Register a slot with a component in it, and bring the component up. -/
def plugIn (s : SlotId) (c : CompId) : List IpcCall :=
  [.fw (.reg (.slotRegister (some s) true)), .fw (.reg (.componentRegister (some c) true)),
    .fw (.reg (.slotSwap (some s) (some c))), .fw (.verb .init (some c)), .fw (.verb .enable (some c))]

/-- Connect two slots. -/
def connect (src dst : SlotId) (mode : ConnMode) (policy : PausePolicy) : IpcCall :=
  .fw (.reg (.connectionRegister (some src) (some dst) mode false policy true true))

end Nonux.Framework
