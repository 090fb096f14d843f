import Nonux.Framework.Recompose

/-!
# Removing, adding and retuning connections

A recomposition changes connections in two phases. Before the components are swapped, each entry of
the plan that removes takes away one connection between its two slots, the newest there is. After
it, each entry that adds makes a new one, if the slots are registered and there is memory, and each
that rewires sets the mode of the newest. There can be any number of connections between two slots.

What happens between two slots is told by the list of the modes of their connections, newest first
(`modesBetween`). It depends on the entries about these two slots alone; where there is one, it is
what `removeConnections_own` and `addConnections_own` say.
-/

namespace Nonux.Framework

open Nonux.Lib Function List
open Prog hiding pure

/-! ### What is left alone -/

/-- The same slots and components, though perhaps other connections. -/
structure SameNodes (r r' : Registry) : Prop where
  slot : r'.slot = r.slot
  comp : r'.comp = r.comp
  components : r'.components = r.components
  slots : r'.nxGraphForeachSlot = r.nxGraphForeachSlot

namespace SameNodes

variable {r r' r'' : Registry}

theorem refl (r : Registry) : SameNodes r r := ⟨rfl, rfl, rfl, rfl⟩

theorem trans (h : SameNodes r r') (h' : SameNodes r' r'') : SameNodes r r'' where
  slot := h'.slot.trans h.slot
  comp := h'.comp.trans h.comp
  components := h'.components.trans h.components
  slots := h'.slots.trans h.slots

theorem hasSlot (h : SameNodes r r') (s : SlotId) : r'.HasSlot s ↔ r.HasSlot s := by
  unfold Registry.HasSlot
  rw [h.slots]

theorem hasComp (h : SameNodes r r') (c : CompId) : r'.HasComp c ↔ r.HasComp c := by
  unfold Registry.HasComp Registry.nxGraphForeachComponent
  rw [h.components]

end SameNodes

section OnConnections

open Prog (All all_pure all_perform all_op all_bind all_ite all_forEach)

/-- The operation reads the registry or tells a component something. -/
def FwOp.Tells : FwOp → Prop
  | .registry | .notify _ _ _ _ _ => True
  | _ => False

theorem tells_notifyDependents (change : SlotChange × Option CompId) :
    All FwOp.Tells (notifyDependents change) := by
  refine all_ite ?_ (all_pure _)
  cases change.1.slot with
  | none => exact all_pure _
  | some s =>
    refine all_op trivial fun r => all_forEach (fun conn => all_op trivial fun r => ?_) _
    cases (r.conn conn).fromSlot.bind fun dep => (r.slot dep).active with
    | none => exact all_pure _
    | some c => exact all_ite (all_perform trivial) (all_pure _)

/-- **Telling the dependents** changes nothing in the graph. -/
theorem notifyDependents_run (changes : List (SlotChange × Option CompId)) (w : World) :
    (Prog.run graphStep (Prog.forEach notifyDependents changes) w).1.reg = w.reg := by
  refine (all_forEach tells_notifyDependents changes).run_inv (fun w' : World => w'.reg = w.reg)
    (fun o ho w' hw' => ?_) rfl
  cases o with
  | registry => exact hw'
  | notify => exact hw'
  | _ => exact ho.elim

end OnConnections

/-! ### The connections between two slots -/

/-- The connection is from `f`, which may be outside, to `t`. -/
def Connection.between (f t : Option SlotId) (cn : Connection) : Bool :=
  decide (cn.fromSlot = f ∧ some cn.toSlot = t)

/-- The modes of the connections from `f` to `t`, newest first. -/
def Registry.modesBetween (r : Registry) (f t : Option SlotId) : List ConnMode :=
  ((r.connections.map r.conn).filter (Connection.between f t)).map (·.mode)

/-- Connections are listed once, and have addresses of their own. -/
structure Listed (r : Registry) : Prop where
  nodup : r.connections.Nodup
  fresh : ∀ c ∈ r.connections, c < r.nextConn

variable {r : Registry}

theorem Edges.listed (h : Edges r) : Listed r := ⟨h.nodup, h.fresh⟩

/-- The entry is about these two slots. -/
def ConnChange.About (cc : ConnChange) (f t : Option SlotId) : Prop := cc.fromSlot = f ∧ cc.toSlot = t

instance (cc : ConnChange) (f t : Option SlotId) : Decidable (cc.About f t) :=
  inferInstanceAs (Decidable (_ ∧ _))

/-- The modes between the slots of an entry have become what `g` makes of them, and nothing else has
changed. -/
structure Rewires (cc : ConnChange) (g : List ConnMode → List ConnMode) (r r' : Registry) : Prop where
  same : SameNodes r r'
  listed : Listed r'
  modes : ∀ f t, r'.modesBetween f t = if cc.About f t then g (r.modesBetween f t)
    else r.modesBetween f t

theorem rewires_refl (h : Listed r) (cc : ConnChange) : Rewires cc id r r := ⟨.refl r, h, by simp⟩

variable {cc : ConnChange} {c : ConnId}

/-- The connection that is found is the newest between its slots. -/
theorem connFind_some (h : connFind r cc = some c) :
    ∃ pre post, r.connections = pre ++ c :: post ∧ (r.conn c).between cc.fromSlot cc.toSlot = true ∧
      ∀ c' ∈ pre, (r.conn c').between cc.fromSlot cc.toSlot = false := by
  obtain ⟨hc, pre, post, heq, hpre⟩ := find?_eq_some_iff_append.mp h
  refine ⟨pre, post, heq, hc, fun c' hc' => ?_⟩
  have hno := hpre c' hc'
  rw [Bool.not_eq_true'] at hno
  exact hno

/-- A connection is between one pair of slots. -/
theorem Connection.between_unique {cn : Connection} {f t f' t' : Option SlotId}
    (h : cn.between f t = true) : cn.between f' t' = decide (f = f' ∧ t = t') := by
  obtain ⟨rfl, rfl⟩ := of_decide_eq_true h
  rfl

/-- The modes between slots, in the list around the newest connection between two of them. -/
theorem modes_append {conn : ConnId → Connection} {pre : List ConnId} {f t : Option SlotId}
    (cn : Connection) (post : List ConnId) (hcn : cn.between f t = true)
    (hpre : ∀ c ∈ pre, (conn c).between f t = false) (f' t' : Option SlotId) :
    ((pre.map conn ++ cn :: post.map conn).filter (Connection.between f' t')).map (·.mode) =
      if f = f' ∧ t = t' then cn.mode :: (((pre ++ post).map conn).filter
        (Connection.between f' t')).map (·.mode)
      else (((pre ++ post).map conn).filter (Connection.between f' t')).map (·.mode) := by
  have hmap : (pre ++ post).map conn = pre.map conn ++ post.map conn := map_append
  rw [hmap, filter_append, filter_append, filter_cons, Connection.between_unique hcn]
  by_cases hpair : f = f' ∧ t = t'
  · obtain ⟨rfl, rfl⟩ := hpair
    have hnone : (pre.map conn).filter (Connection.between f t) = [] := by simpa using hpre
    simp [hnone]
  · simp [hpair]

/-! ### One entry -/

/-- The newest connection between two slots is taken away. -/
theorem rewires_unregister (h : Listed r) (hc : connFind r cc = some c) :
    Rewires cc tail r (RegCall.next r (.connectionUnregister (some c))) := by
  obtain ⟨pre, post, hlist, hends, hpre⟩ := connFind_some hc
  have hnodup := h.nodup
  rw [hlist, nodup_append, nodup_cons] at hnodup
  have hcpre : c ∉ pre := fun hmem => hnodup.2.2 c hmem c mem_cons_self rfl
  have hok : ((RegCall.connectionUnregister (some c)).apply r).2 = .ok () := by
    simp [RegCall.apply, Registry.nxConnectionUnregister, hlist]
  have heffect := RegCall.effect_of_ok hok
  generalize RegCall.next r (.connectionUnregister (some c)) = r' at heffect
  cases heffect with
  | connectionUnregister hmem gen log =>
    refine ⟨⟨rfl, rfl, rfl, relink_slots (fun l => l.erase c) _ _ _⟩,
      ⟨h.nodup.erase c, fun c' hc' => ?_⟩, ?_⟩
    · exact h.fresh c' (mem_of_mem_erase hc')
    · intro f t
      have hmodes := modes_append _ post hends hpre f t
      rw [← map_cons, ← map_append, ← hlist] at hmodes
      have herase : r.connections.erase c = pre ++ post := by
        rw [hlist, erase_append_right _ hcpre, erase_cons_head]
      simp only [Registry.modesBetween, herase, hmodes, ConnChange.About]
      split_ifs <;> rfl

/-- The newest connection between two slots gets a mode. -/
theorem rewires_retune (h : Listed r) (hc : connFind r cc = some c) (stateful : Bool) :
    Rewires cc (modifyHead fun _ => cc.mode) r
      (RegCall.next r (.connectionRetune (some c) cc.mode stateful)) := by
  obtain ⟨pre, post, hlist, hends, hpre⟩ := connFind_some hc
  have hnodup := h.nodup
  rw [hlist, nodup_append, nodup_cons] at hnodup
  have hok : ((RegCall.connectionRetune (some c) cc.mode stateful).apply r).2 = .ok () := by
    simp [RegCall.apply, Registry.nxConnectionRetune, hlist]
  have heffect := RegCall.effect_of_ok hok
  generalize RegCall.next r (.connectionRetune (some c) cc.mode stateful) = r' at heffect
  cases heffect with
  | connectionRetune hmem gen log =>
    refine ⟨⟨rfl, rfl, rfl, rfl⟩, ⟨h.nodup, h.fresh⟩, fun f t => ?_⟩
    have hother : ∀ l : List ConnId, c ∉ l →
        l.map (update r.conn c { r.conn c with mode := cc.mode, stateful }) = l.map r.conn := by
      intro l hl
      refine map_congr_left fun c' hc' => update_of_ne ?_ _ _
      exact fun heq => hl (heq ▸ hc')
    have hcpre : c ∉ pre := fun hmem => hnodup.2.2 c hmem c mem_cons_self rfl
    have hmodes := modes_append _ post hends hpre f t
    have hmodes' := modes_append { r.conn c with mode := cc.mode, stateful } post hends hpre f t
    simp only [Registry.modesBetween, hlist, map_append, map_cons, hother pre hcpre,
      hother post hnodup.2.1.1, update_self] at hmodes hmodes' ⊢
    rw [hmodes, hmodes']
    unfold ConnChange.About
    split_ifs <;> rfl

/-- What an entry that adds finds: the slots are registered. -/
def Registry.CanAdd (r : Registry) (cc : ConnChange) : Prop :=
  (∃ t ∈ cc.toSlot, r.HasSlot t) ∧ ∀ s ∈ cc.fromSlot, r.HasSlot s

instance (r : Registry) (cc : ConnChange) : Decidable (r.CanAdd cc) :=
  inferInstanceAs (Decidable ((∃ t ∈ cc.toSlot, r.HasSlot t) ∧ ∀ s ∈ cc.fromSlot, r.HasSlot s))

theorem connectionRegister_ok (h : r.CanAdd cc) :
    (RegCall.apply r (.connectionRegister cc.fromSlot cc.toSlot cc.mode cc.stateful cc.policy true
      true)).2 = .ok () := by
  obtain ⟨⟨t, ht, hto⟩, hfrom⟩ := h
  have hto' : r.slotNodeFor (some t) ≠ none := Registry.slotNodeFor_ne_none_iff.mpr hto
  have hfrom' : ¬ (cc.fromSlot.isSome ∧ r.slotNodeFor cc.fromSlot = none) := by
    rintro ⟨hsome, hnone⟩
    obtain ⟨s, hs⟩ := Option.isSome_iff_exists.mp hsome
    rw [hs] at hnone
    exact Registry.slotNodeFor_eq_none_iff.mp hnone (hfrom s hs)
  simp [RegCall.apply, Registry.nxConnectionRegister, Option.mem_def.mp ht, hto', hfrom', Except.map]

/-- A connection is added, if it can be. -/
theorem rewires_register (h : Listed r) (cc : ConnChange) (c₁ c₂ : Bool) :
    Rewires cc (fun modes => if r.CanAdd cc ∧ (c₁ && c₂) = true then cc.mode :: modes else modes) r
      (RegCall.next r
        (.connectionRegister cc.fromSlot cc.toSlot cc.mode cc.stateful cc.policy c₁ c₂)) := by
  rcases RegCall.outcome r (.connectionRegister cc.fromSlot cc.toSlot cc.mode cc.stateful cc.policy
    c₁ c₂) with
    ⟨e, he⟩ | ⟨-, heffect⟩
  · have hno : ¬ (r.CanAdd cc ∧ (c₁ && c₂) = true) := by
      rintro ⟨hcan, hmem⟩
      obtain ⟨rfl, rfl⟩ := (Bool.and_eq_true _ _).mp hmem
      have hok := connectionRegister_ok hcan
      rw [he] at hok
      cases hok
    have hkept := congrArg Prod.fst he
    change RegCall.next r _ = r at hkept
    rw [hkept]
    simp only [hno, if_false]
    exact rewires_refl h cc
  · obtain ⟨fromSlot, toSlot, action, mode, stateful, policy⟩ := cc
    change Effect r _ (RegCall.next r (.connectionRegister fromSlot toSlot mode stateful policy c₁
      c₂)) at heffect
    dsimp only at heffect ⊢
    generalize RegCall.next r (.connectionRegister fromSlot toSlot mode stateful policy c₁ c₂) =
      r' at heffect
    cases heffect with
    | @connectionRegister _ dst _ _ _ hto hfrom gen log =>
      have hne : ∀ c ∈ r.connections, c ≠ r.nextConn := fun c hc => (h.fresh c hc).ne
      refine ⟨⟨rfl, rfl, rfl, relink_slots (fun l => r.nextConn :: l) _ _ _⟩, ⟨?_, ?_⟩, ?_⟩
      · exact nodup_cons.mpr ⟨fun hc => hne _ hc rfl, h.nodup⟩
      · intro c hc
        rcases mem_cons.mp hc with rfl | hc
        · exact Nat.lt_succ_self _
        · exact (h.fresh c hc).trans (Nat.lt_succ_self _)
      · intro f t
        have hcan : r.CanAdd ⟨fromSlot, some dst, action, mode, stateful, policy⟩ :=
          ⟨⟨dst, rfl, hto⟩, hfrom⟩
        have hold : r.connections.map
          (update r.conn r.nextConn ⟨fromSlot, dst, mode, stateful, policy⟩) =
            r.connections.map r.conn := map_congr_left fun c hc => update_of_ne (hne c hc) _ _
        simp only [Registry.modesBetween, map_cons, hold, update_self, hcan, Bool.and_self, and_self,
          filter_cons, Connection.between, ConnChange.About, decide_eq_true_eq]
        split_ifs <;> rfl

/-! ### The phases -/

/-- Only the connections between slots of the entries have changed. -/
structure Rewired (conns : List ConnChange) (r r' : Registry) : Prop where
  same : SameNodes r r'
  listed : Listed r'
  others : ∀ f t, (∀ cc ∈ conns, ¬ cc.About f t) → r'.modesBetween f t = r.modesBetween f t

/-- One more step, for one of the entries. -/
theorem Rewired.step {conns : List ConnChange} {r' r'' : Registry} (h : Rewired conns r r')
    {g : List ConnMode → List ConnMode} (hstep : Rewires cc g r' r'') (hcc : cc ∈ conns) :
    Rewired conns r r'' := by
  refine ⟨h.same.trans hstep.same, hstep.listed, fun f t hft => ?_⟩
  rw [hstep.modes, if_neg (hft cc hcc), h.others f t hft]

/-- No connection is found between slots that have none. -/
theorem modesBetween_of_connFind_none (h : connFind r cc = none) :
    r.modesBetween cc.fromSlot cc.toSlot = [] := by
  simp only [connFind, find?_eq_none, Registry.nxGraphForeachConnection] at h
  simpa [Registry.modesBetween, Connection.between] using h

/-- Where there is no connection, nothing is done. -/
theorem rewires_none (h : Listed r) (hc : connFind r cc = none) {g : List ConnMode → List ConnMode}
    (hg : g [] = []) : Rewires cc g r r := by
  refine ⟨.refl r, h, fun f t => ?_⟩
  split_ifs with hpair
  · rw [← hpair.1, ← hpair.2, modesBetween_of_connFind_none hc, hg]
  · rfl

variable {w : World}

/-- What an entry that removes makes of the modes. -/
def ConnChange.removes (cc : ConnChange) : List ConnMode → List ConnMode :=
  if cc.action = .remove then tail else id

theorem removeConnection_step (cc : ConnChange) (h : Listed w.reg) :
    (Prog.run graphStep (removeConnection cc) w).1.answers = w.answers ∧
      Rewires cc cc.removes w.reg (Prog.run graphStep (removeConnection cc) w).1.reg := by
  rw [removeConnection, run_ite, ConnChange.removes]
  by_cases haction : cc.action = .remove
  · rw [if_pos haction, if_pos haction, withConnection, run_readRegistry_bind]
    cases hfind : connFind w.reg cc with
    | none => exact ⟨rfl, rewires_none h hfind rfl⟩
    | some c =>
      simp only [run_bind, run_regCall, run_pure, true_and]
      exact rewires_unregister h hfind
  · rw [if_neg haction, if_neg haction]
    exact ⟨rfl, rewires_refl h cc⟩

/-- **Connections are removed.** -/
theorem removeConnections_run (conns : List ConnChange) (h : Listed w.reg) :
    (Prog.run graphStep (Prog.forEach removeConnection conns) w).1.answers = w.answers ∧
      Rewired conns w.reg (Prog.run graphStep (Prog.forEach removeConnection conns) w).1.reg := by
  refine run_forEach_inv (fun w' : World => w'.answers = w.answers ∧ Rewired conns w.reg w'.reg) ?_
    ⟨rfl, .refl _, h, fun _ _ _ => rfl⟩
  rintro cc hcc w' ⟨hanswers, hw'⟩
  obtain ⟨hkept, hstep⟩ := removeConnection_step cc hw'.listed
  exact ⟨hkept.trans hanswers, hw'.step hstep hcc⟩

/-- Between two slots that one entry is about, at most one connection is removed. -/
theorem removeConnections_own {pre post : List ConnChange} (h : Listed w.reg)
    (hother : ∀ cc' ∈ pre ++ post, ¬ cc'.About cc.fromSlot cc.toSlot) :
    (Prog.run graphStep (Prog.forEach removeConnection (pre ++ cc :: post)) w).1.reg.modesBetween
        cc.fromSlot cc.toSlot = cc.removes (w.reg.modesBetween cc.fromSlot cc.toSlot) := by
  rw [forall_mem_append] at hother
  obtain ⟨-, hpre⟩ := removeConnections_run pre h
  rw [run_forEach_split]
  obtain ⟨-, hstep⟩ := removeConnection_step cc hpre.listed
  obtain ⟨-, hpost⟩ := removeConnections_run post hstep.listed
  rw [hpost.others _ _ hother.2, hstep.modes, if_pos ⟨rfl, rfl⟩, hpre.others _ _ hother.1]

/-- How many of the entries add a connection. -/
def adds (conns : List ConnChange) : ℕ := conns.countP fun cc => decide (cc.action = .add)

/-- What an entry that adds or rewires makes of the modes, where `mem` says if there is memory. -/
def ConnChange.tunes (cc : ConnChange) (r : Registry) (mem : Bool) :
    List ConnMode → List ConnMode :=
  match cc.action with
  | .add => fun modes => if r.CanAdd cc ∧ mem = true then cc.mode :: modes else modes
  | .rewire => modifyHead fun _ => cc.mode
  | _ => id

/-- For each entry that adds, two allocations have been made. -/
structure Allocated (k : ℕ) (w w' : World) : Prop where
  calloc : ∀ j, w'.answers .calloc j = w.answers .calloc (2 * k + j)
  others : ∀ o : FwOp, o ≠ .calloc → w'.answers o = w.answers o

theorem allocated_zero (w : World) (r : Registry) : Allocated 0 w ⟨r, w.answers⟩ :=
  ⟨fun j => by rw [mul_zero, zero_add], fun _ _ => rfl⟩

theorem addConnection_step (cc : ConnChange) (h : Listed w.reg) :
    Allocated (adds [cc]) w (Prog.run graphStep (addConnection cc) w).1 ∧
      Rewires cc (cc.tunes w.reg (w.answers .calloc 0 && w.answers .calloc 1)) w.reg
        (Prog.run graphStep (addConnection cc) w).1.reg := by
  unfold ConnChange.tunes addConnection
  cases haction : cc.action with
  | add =>
    dsimp only
    rw [run_perform_bind, run_perform_bind, run_bind, run_regCall]
    refine ⟨⟨fun j => ?_, fun o ho => ?_⟩, rewires_register h cc _ _⟩
    · have hone : adds [cc] = 1 := by simp [adds, haction]
      change (w.answers.after .calloc).after .calloc .calloc j = _
      simp only [Answers.after, update_self, hone]
      congr 1
      omega
    · exact (Answers.after_of_ne ho).trans (Answers.after_of_ne ho)
  | rewire =>
    have hnone : adds [cc] = 0 := by simp [adds, haction]
    rw [hnone]
    dsimp only
    rw [withConnection, run_readRegistry_bind]
    cases hfind : connFind w.reg cc with
    | none => exact ⟨allocated_zero w _, rewires_none h hfind rfl⟩
    | some c =>
      simp only [run_bind, run_regCall, run_pure]
      exact ⟨allocated_zero w _, rewires_retune h hfind _⟩
  | remove | other =>
    have hnone : adds [cc] = 0 := by simp [adds, haction]
    rw [hnone]
    exact ⟨allocated_zero w _, rewires_refl h cc⟩

/-- **Connections are added and rewired.** -/
theorem addConnections_run (conns : List ConnChange) (h : Listed w.reg) :
    Allocated (adds conns) w (Prog.run graphStep (Prog.forEach addConnection conns) w).1 ∧
      Rewired conns w.reg (Prog.run graphStep (Prog.forEach addConnection conns) w).1.reg := by
  induction conns using List.reverseRecOn with
  | nil => exact ⟨allocated_zero w _, .refl _, h, fun _ _ _ => rfl⟩
  | append_singleton conns cc ih =>
    obtain ⟨halloc, hrest⟩ := ih
    obtain ⟨hlast, hstep⟩ := addConnection_step cc hrest.listed
    rw [run_forEach_split]
    refine ⟨⟨fun j => ?_, fun o ho => (hlast.others o ho).trans (halloc.others o ho)⟩, ?_⟩
    · change (Prog.run graphStep (addConnection cc) _).1.answers .calloc j = _
      rw [hlast.calloc, halloc.calloc]
      congr 1
      simp only [adds, countP_append]
      omega
    · have hmore : Rewired (conns ++ [cc]) w.reg _ := ⟨hrest.same, hrest.listed, fun f t hft =>
        hrest.others f t fun cc' hcc' => hft cc' (mem_append_left _ hcc')⟩
      exact hmore.step hstep (by simp)

/-- Between two slots that one entry is about, what it asks for is done, if there is memory. -/
theorem addConnections_own {pre post : List ConnChange} (h : Listed w.reg)
    (hother : ∀ cc' ∈ pre ++ post, ¬ cc'.About cc.fromSlot cc.toSlot) :
    (Prog.run graphStep (Prog.forEach addConnection (pre ++ cc :: post)) w).1.reg.modesBetween
        cc.fromSlot cc.toSlot =
      cc.tunes w.reg (w.answers .calloc (2 * adds pre) && w.answers .calloc (2 * adds pre + 1))
        (w.reg.modesBetween cc.fromSlot cc.toSlot) := by
  rw [forall_mem_append] at hother
  obtain ⟨halloc, hpre⟩ := addConnections_run pre h
  rw [run_forEach_split]
  obtain ⟨-, hstep⟩ := addConnection_step cc hpre.listed
  obtain ⟨-, hpost⟩ := addConnections_run post hstep.listed
  have hcan : (Prog.run graphStep (Prog.forEach addConnection pre) w).1.reg.CanAdd cc ↔
      w.reg.CanAdd cc := by simp only [Registry.CanAdd, hpre.same.hasSlot]
  rw [hpost.others _ _ hother.2, hstep.modes, if_pos ⟨rfl, rfl⟩, hpre.others _ _ hother.1,
    halloc.calloc, halloc.calloc, add_zero]
  simp only [ConnChange.tunes, hcan]

/-! ### What comes of an entry -/

variable {mem : Bool} {modes : List ConnMode}

theorem ConnChange.removed_iff (h : cc.action = .remove) :
    cc.tunes r mem (cc.removes modes) = [] ↔ modes.length ≤ 1 := by
  simp only [ConnChange.tunes, ConnChange.removes, h, if_true, id]
  rw [← length_eq_zero_iff, length_tail, Nat.sub_eq_zero_iff_le]

theorem ConnChange.added_iff (h : cc.action = .add) :
    cc.mode ∈ cc.tunes r mem (cc.removes modes) ↔ cc.mode ∈ modes ∨ r.CanAdd cc ∧ mem = true := by
  simp only [ConnChange.tunes, ConnChange.removes, h, reduceCtorEq, if_false, id]
  split_ifs with hadd
  · simp [hadd]
  · simp [hadd]

theorem ConnChange.rewired_iff (h : cc.action = .rewire) :
    cc.mode ∈ cc.tunes r mem (cc.removes modes) ↔ modes ≠ [] := by
  simp only [ConnChange.tunes, ConnChange.removes, h, reduceCtorEq, if_false, id]
  cases modes with
  | nil => simp
  | cons m modes => simp

end Nonux.Framework
