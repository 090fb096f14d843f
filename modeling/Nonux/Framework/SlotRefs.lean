import Nonux.Framework.RouteEdges

/-!
# Retaining and releasing a slot reference (`nx_slot_ref_retain`, `nx_slot_ref_release`)

A component that was sent a reference to a slot can keep it: a connection is registered from the
component's own slot to it. It is a connection of its own, beside those there may be between the two
slots already, and being the newest it is the one the router finds from then on. So the messages
that went over an older connection are now routed with the settings of the new one, which are always
the same. Releasing looks for a connection in the same way, and takes the one that was added.

`retain_release_iff` says when the two together leave everything as it was.
-/

namespace Nonux.Framework

open Nonux.Lib CallSys Function

/-! ### Where nobody interferes -/

/-- Hooks, handlers and subscribers make no calls. -/
def NoCalls (_ : Ipc) : IpcAtom → Prop
  | .enter _ => False
  | _ => True

/-- Callbacks then leave everything as it is, and a call of the registry does what it does. -/
def regContract : Contract ipc where
  spec chk f s _ s' r :=
    match f, r with
    | .api _, _ => chk = true → False
    | .reg call, st => s'.reg = call.next s.reg ∧ st = (call.apply s.reg).2
    | _, _ => True
  rely s s' := s' = s

theorem regContract_kept : regContract.Kept NoCalls where
  body := by
    intro chk f s
    cases f with
    | api call =>
      refine wp_atom_bind.mpr fun _ hok => ?_
      exact wp_mono (wp_true _ _) fun _ _ _ _ hchk => hok hchk
    | reg call =>
      refine wp_atom_bind.mpr fun _ _ => wp_ite.mpr ⟨fun _ => ?_, fun _ => ⟨rfl, rfl⟩⟩
      rintro s₁ - rfl
      exact ⟨rfl, rfl⟩
    | nxIpcSend m | nxIpcDispatch slot max | dispatchLoop slot left | nxIpcFlushHoldQueue dst | flushLoop | replay =>
      exact wp_true _ s
  exported := by
    rintro - ⟨call, rfl⟩ s tr s' r h
    exact (h rfl).elim
  refl _ := rfl
  trans := by
    rintro s s₁ s' rfl rfl
    rfl

/-! ### The two calls -/

variable {r : Registry}

/-- A registration that succeeds has got its memory. -/
theorem Effect.calloc {r' : Registry} {fromSlot toSlot : Option SlotId} {mode : ConnMode}
    {stateful : Bool} {policy : PausePolicy} {callocConn callocNode : Bool}
    (h : Effect r (.connectionRegister fromSlot toSlot mode stateful policy callocConn callocNode) r') :
    ∃ dst, toSlot = some dst ∧
      Effect r (.connectionRegister fromSlot (some dst) mode stateful policy true true) r' := by
  cases h with
  | connectionRegister hto hfrom gen log => exact ⟨_, rfl, .connectionRegister hto hfrom gen log⟩

theorem slotRef_capOf {s : Ipc} {m : IpcMessage} {i : ℕ} {cap : IpcCap} (h : s.capOf m i = some cap) :
    cap.slotRef = m.caps[i]?.bind (·.slotRef) := by
  obtain ⟨cap₀, hcap₀, rfl⟩ := Option.map_eq_some_iff.mp h
  rw [hcap₀]
  rfl

/-- **Retaining** registers a connection to the slot the capability refers to. -/
theorem nxSlotRefRetain_run {chk : Bool} {self : SlotId} {m : IpcMessage} {i : ℕ} {s s' : Ipc}
    {tr : ipc.Trace} (h : Runs ipc NoCalls chk (nxSlotRefRetain (some self) m i) s tr s' nxOk) :
    ∃ dst, m.caps[i]?.bind (·.slotRef) = some dst ∧
      Effect s.reg (.connectionRegister (some self) (some dst) .async false .queue true true)
        s'.reg := by
  have hfail : ∀ (e : Err) (s' : Ipc), e.code = nxOk → ∃ dst, m.caps[i]?.bind (·.slotRef) = some dst ∧
      Effect s.reg (.connectionRegister (some self) (some dst) .async false .queue true true) s'.reg :=
    fun e _ hcode => absurd hcode (Err.code_ne_nxOk e)
  refine h.sound regContract_kept (Q := fun _ s' rc => rc = nxOk → ∃ dst,
    m.caps[i]?.bind (·.slotRef) = some dst ∧
    Effect s.reg (.connectionRegister (some self) (some dst) .async false .queue true true) s'.reg)
      ?_ rfl
  refine wp_atom_bind.mpr fun answer _ => ?_
  cases hcap : (s.exec answer (.capOf m i)).2 with
  | none => exact hfail .einval s
  | some cap =>
    refine wp_ite.mpr ⟨fun _ => hfail .einval s,
      fun _ => wp_ite.mpr ⟨fun _ => hfail .einval s, fun _ => ?_⟩⟩
    refine wp_ite.mpr ⟨fun _ => hfail .einval s, fun _ => wp_atom_bind.mpr fun callocConn _ => ?_⟩
    refine wp_atom_bind.mpr fun callocNode _ => wp_proc_bind.mpr fun _ s₁ st hreg => ?_
    obtain ⟨hnext, hst⟩ := hreg
    refine wp_ite.mpr ⟨fun hok => wp_atom_bind.mpr fun _ _ _ => ?_, fun hne => ?_⟩
    · rw [hst] at hok
      have heffect := RegCall.effect_of_ok hok
      rw [← hnext, slotRef_capOf hcap] at heffect
      exact heffect.calloc
    · cases st with
      | ok u => exact absurd rfl hne
      | error e => exact hfail e s₁

variable {c : ConnId}

/-- **Releasing** unregisters the connection the router would find. -/
theorem nxSlotRefRelease_run {chk : Bool} {self target : SlotId} {s s' : Ipc} {tr : ipc.Trace}
    (h : Runs ipc NoCalls chk (nxSlotRefRelease (some self) (some target)) s tr s' ())
    (hc : findEdge s.reg self target = some c) :
    s'.reg = RegCall.next s.reg (.connectionUnregister (some c)) := by
  refine h.sound regContract_kept
    (Q := fun _ s' _ => s'.reg = RegCall.next s.reg (.connectionUnregister (some c))) ?_
  refine wp_atom_bind.mpr fun answer _ => ?_
  have hedge : findEdge (s.exec answer .registry).2 self target = some c := hc
  rw [hedge]
  exact wp_proc_bind.mpr fun _ s₁ _ hreg => hreg.1

/-! ### What comes of them -/

/-- The settings the router uses for messages from one slot to another. -/
def routing (r : Registry) (src dst : SlotId) : Option (ConnMode × PausePolicy) :=
  (findEdge r src dst).map fun c => ((r.conn c).mode, (r.conn c).policy)

/-- A change of a connection that does not lead from `src` to `dst`. -/
def OffEdge (src dst : SlotId) (r : Registry) : RegCall → Prop
  | .connectionRegister fromSlot toSlot _ _ _ _ _ => ¬ (fromSlot = some src ∧ toSlot = some dst)
  | .connectionRetune (some c) _ _ => c ∉ r.edgesTo src dst
  | .connectionUnregister (some c) => c ∉ r.edgesTo src dst
  | .connectionRetune none _ _ => True
  | .connectionUnregister none => True
  | _ => False

/-- The connections from `src` to `dst` are `edges`, with the settings of `conn`. -/
structure EdgesAre (src dst : SlotId) (edges : List ConnId) (conn : ConnId → Connection)
    (r : Registry) : Prop where
  consistent : Consistent r
  edgesTo_eq : r.edgesTo src dst = edges
  conn_eq : ∀ c ∈ edges, r.conn c = conn c

variable {src dst : SlotId} {edges : List ConnId} {conn : ConnId → Connection}

/-- Changes elsewhere leave the connections alone. -/
theorem EdgesAre.offEdge {call : RegCall} (hcall : OffEdge src dst r call)
    (h : EdgesAre src dst edges conn r) : EdgesAre src dst edges conn (call.next r) := by
  refine RegCall.next_inv h fun r' he => ?_
  have hcons : Consistent r' := h.consistent.effect he
  cases call with
  | connectionRegister fromSlot toSlot mode stateful policy callocConn callocNode =>
    obtain ⟨to', rfl, he'⟩ := he.calloc
    have hlist := edgesTo_connectionRegister h.consistent he' src dst
    rw [if_neg (by simpa [OffEdge] using hcall), h.edgesTo_eq] at hlist
    refine ⟨hcons, hlist, fun c hc => ?_⟩
    have hmem : c ∈ r.connections := ((mem_edgesTo h.consistent).mp (h.edgesTo_eq ▸ hc)).1
    have hne : c ≠ r.nextConn := fun heq => lt_irrefl _ (heq ▸ h.consistent.edges.fresh c hmem)
    rw [(he'.registered h.consistent.names).2.1, update_of_ne hne, h.conn_eq c hc]
  | connectionRetune c₀ mode stateful =>
    cases c₀ with
    | none => cases he
    | some c₀ =>
      refine ⟨hcons, (edgesTo_connectionRetune he src dst).trans h.edgesTo_eq, fun c hc => ?_⟩
      have hne : c ≠ c₀ := fun heq => hcall (heq ▸ h.edgesTo_eq ▸ hc)
      cases he with
      | connectionRetune hc₀ gen log => exact (update_of_ne hne _ _).trans (h.conn_eq c hc)
  | connectionUnregister c₀ =>
    cases c₀ with
    | none => cases he
    | some c₀ =>
      have hlist := edgesTo_connectionUnregister h.consistent he src dst
      rw [List.erase_of_not_mem hcall, h.edgesTo_eq] at hlist
      refine ⟨hcons, hlist, fun c hc => ?_⟩
      rw [(he.unregistered h.consistent.names).2.1, h.conn_eq c hc]
  | _ => exact hcall.elim

/-- After the reference is retained there is one connection more, the first. -/
theorem edgesAre_of_retain {r' : Registry} (h : Consistent r)
    (he : Effect r (.connectionRegister (some src) (some dst) .async false .queue true true) r') :
    EdgesAre src dst (r.nextConn :: r.edgesTo src dst)
      (update r.conn r.nextConn ⟨some src, dst, .async, false, .queue⟩) r' := by
  refine ⟨h.effect he, ?_, fun c _ => ?_⟩
  · rw [edgesTo_connectionRegister h he src dst, if_pos ⟨rfl, rfl⟩]
  · rw [(he.registered h.names).2.1]

theorem EdgesAre.findEdge (h : EdgesAre src dst (c :: edges) conn r) : findEdge r src dst = some c := by
  rw [findEdge_eq_head?, h.edgesTo_eq, List.head?_cons]

/-- Releasing takes the first connection, and no other. -/
theorem EdgesAre.release (h : EdgesAre src dst (c :: edges) conn r) :
    EdgesAre src dst edges conn (RegCall.next r (.connectionUnregister (some c))) := by
  have hc : c ∈ r.connections := (isEdge_of_findEdge h.consistent h.findEdge).1
  have hok : (RegCall.apply r (.connectionUnregister (some c))).2 = .ok () := by
    show (r.nxConnectionUnregister (some c)).2 = .ok ()
    simp [Registry.nxConnectionUnregister, hc]
  have he := RegCall.effect_of_ok hok
  refine ⟨h.consistent.effect he, ?_, fun c' hc' => ?_⟩
  · rw [edgesTo_connectionUnregister h.consistent he, h.edgesTo_eq, List.erase_cons_head]
  · rw [(he.unregistered h.consistent.names).2.1, h.conn_eq c' (List.mem_cons_of_mem _ hc')]

/-- **Retaining and releasing**, with changes of other connections in between: the routing over a
connection that was there stays, and in the end the connections are those there were, exactly if
that connection had the settings that retaining gives. -/
theorem retain_release_iff {self target : SlotId} {m : IpcMessage} {i : ℕ} {calls : List RegCall}
    {s s₁ s₂ s₃ : Ipc} {tr tr' : ipc.Trace} (hcons : Consistent s.reg)
    (hcap : m.caps[i]?.bind (·.slotRef) = some target)
    (hretain : Runs ipc NoCalls false (nxSlotRefRetain (some self) m i) s tr s₁ nxOk)
    (hcalls : RunOk RegCall.next (OffEdge self target) s₁.reg calls)
    (hbetween : s₂.reg = runFrom RegCall.next s₁.reg calls)
    (hrelease : Runs ipc NoCalls false (nxSlotRefRelease (some self) (some target)) s₂ tr' s₃ ()) :
    ((findEdge s.reg self target ≠ none → routing s₁.reg self target = routing s.reg self target) ∧
        (∀ c, s₃.reg.IsEdge self target c ↔ s.reg.IsEdge self target c) ∧
        ∀ c, s.reg.IsEdge self target c → s₃.reg.conn c = s.reg.conn c) ↔
      (findEdge s.reg self target ≠ none → routing s.reg self target = some (.async, .queue)) := by
  obtain ⟨dst, hdst, he⟩ := nxSlotRefRetain_run hretain
  obtain rfl : target = dst := Option.some.inj (hcap.symm.trans hdst)
  have h₁ := edgesAre_of_retain hcons he
  have h₂ := hcalls.inv (EdgesAre self target _ _) (fun r call hcall h => h.offEdge hcall) h₁
  rw [← hbetween] at h₂
  have h₃ := h₂.release
  rw [← nxSlotRefRelease_run hrelease h₂.findEdge] at h₃
  have hrouting : routing s₁.reg self target = some (.async, .queue) := by
    rw [routing, h₁.findEdge, Option.map_some, h₁.conn_eq _ List.mem_cons_self, update_self]
  have hedges : ∀ c, s₃.reg.IsEdge self target c ↔ s.reg.IsEdge self target c := by
    intro c
    rw [← mem_edgesTo h₃.consistent, ← mem_edgesTo hcons, h₃.edgesTo_eq]
  have hconn : ∀ c, s.reg.IsEdge self target c → s₃.reg.conn c = s.reg.conn c := by
    intro c hc
    have hne : c ≠ s.reg.nextConn := fun heq => lt_irrefl _ (heq ▸ hcons.edges.fresh c hc.1)
    rw [h₃.conn_eq c ((mem_edgesTo hcons).mpr hc), update_of_ne hne]
  rw [hrouting]
  constructor
  · rintro ⟨hkept, -⟩ hedge
    exact (hkept hedge).symm
  · intro hset
    exact ⟨fun hedge => (hset hedge).symm, hedges, hconn⟩

/-- Two slots, with a connection from `1` to `2`. -/
def connectedSlots (mode : ConnMode) (policy : PausePolicy) : Ipc where
  reg := runFrom RegCall.next
    (bootRegistry (fun s => { name := some (toString s) })
      fun _ => { manifestId := none, instanceId := none })
    [.slotRegister (some 1) true, .slotRegister (some 2) true,
      .connectionRegister (some 1) (some 2) mode false policy true true]

/-- A message to slot `1` with a reference to slot `2`. -/
def refMessage : IpcMessage := ⟨0, some 2, some 1, [⟨.slotRef, some 2, false⟩]⟩

/-- The state after slot `1` has retained the reference. -/
def retained (mode : ConnMode) (policy : PausePolicy) : Ipc :=
  evalState quiet 40 (nxSlotRefRetain (some 1) refMessage 0) (connectedSlots mode policy)

theorem retained_runs (mode : ConnMode) (policy : PausePolicy) :
    ∃ tr, Runs ipc NoCalls false (nxSlotRefRetain (some 1) refMessage 0) (connectedSlots mode policy) tr
      (retained mode policy) nxOk := by
  refine runs_quiet 40 ?_
  cases mode <;> cases policy <;> decide +kernel

theorem retain_release_async_queue :
    let s := connectedSlots .async .queue
    let s₁ := retained .async .queue
    ∃ s₃, ((findEdge s.reg 1 2 ≠ none → routing s₁.reg 1 2 = routing s.reg 1 2) ∧
        (∀ c, s₃.IsEdge 1 2 c ↔ s.reg.IsEdge 1 2 c) ∧ ∀ c, s.reg.IsEdge 1 2 c →
        s₃.conn c = s.reg.conn c) ∧
      findEdge s.reg 1 2 = some 0 ∧ findEdge s₁.reg 1 2 = some 1 ∧ findEdge s₃ 1 2 = some 0 := by
  let s₁ := retained .async .queue
  let back : RegCall := .connectionRegister (some 2) (some 1) .sync true .reject true true
  let s₂ := { s₁ with reg := back.next s₁.reg }
  obtain ⟨tr, hretain⟩ := retained_runs .async .queue
  obtain ⟨tr', hrelease⟩ : ∃ tr, Runs ipc NoCalls false (nxSlotRefRelease (some 1) (some 2)) s₂ tr
      (evalState quiet 40 (nxSlotRefRelease (some 1) (some 2)) s₂) () := runs_quiet 40
        (by decide +kernel)
  have hcalls : RunOk RegCall.next (OffEdge 1 2) s₁.reg [back] := ⟨by simp [back, OffEdge], trivial⟩
  have hiff := retain_release_iff (consistent_run _ _ _) rfl hretain hcalls rfl hrelease
  exact ⟨_, hiff.mpr fun _ => by decide +kernel, by decide +kernel, by decide +kernel, by decide +kernel⟩

/-- A connection that is synchronous and refuses is replaced by one that is neither. -/
theorem retain_reroutes :
    let s := connectedSlots .sync .reject
    ∃ tr s₁, Runs ipc NoCalls false (nxSlotRefRetain (some 1) refMessage 0) s tr s₁ nxOk ∧
      routing s.reg 1 2 = some (.sync, .reject) ∧ routing s₁.reg 1 2 = some (.async, .queue) := by
  obtain ⟨tr, hretain⟩ := retained_runs .sync .reject
  exact ⟨tr, retained .sync .reject, hretain, by decide +kernel, by decide +kernel⟩

end Nonux.Framework
