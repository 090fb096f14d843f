import Nonux.Framework.BootWiring

/-!
# The order in which components come up

The loop of `nx_framework_bootstrap` is a topological sort: a component is brought up when the
components behind the slots it requires are up. It is Kahn's algorithm (`Nonux.Lib.Kahn`), with a
component that requires what no component provides in the role of one that waits for itself.

* `bootstrap_correct`: bring-up ends, with `NX_OK` just when every required dependency is provided
  and none leads back to where it started, if nothing else stands in the way.
* `bootstrap_active`: after success every component behind a slot is active.
-/

namespace Nonux.Framework

open Nonux.Lib Relation Function List
open Prog hiding pure

/-! ### What components require -/

namespace Composition

variable (k : Composition)

/-- The component requires a slot that the other is behind. -/
def Requires (i j : Fin k.size) : Prop :=
  ∃ dep ∈ (k.desc i).deps, dep.required = true ∧ k.Provides dep.name j

/-- Every required dependency names a slot that gets a component. -/
def Provided : Prop := ∀ i, ∀ dep ∈ (k.desc i).deps, dep.required = true → ∃ j, k.Provides dep.name j

/-- No component requires itself, over however many others. -/
def Acyclic : Prop := ∀ i, ¬ TransGen k.Requires i i

/-- What the component requires is up. -/
def Ready (visited : Fin k.size → Bool) (i : Fin k.size) : Prop :=
  ∀ dep ∈ (k.desc i).deps, dep.required = true → ∃ j, k.Provides dep.name j ∧ visited j = true

instance (visited : Fin k.size → Bool) (i : Fin k.size) : Decidable (k.Ready visited i) :=
  inferInstanceAs (Decidable (∀ dep ∈ _, _ → ∃ _, _))

/-- The component behind the slot of a name. -/
def provider (name : String) : Option (Fin k.size) :=
  (List.finRange k.size).find? fun j => decide (k.Provides name j)

/-- What comes before what. A component that requires what is not provided comes before itself. -/
def edges : List (Fin k.size × Fin k.size) :=
  (List.finRange k.size).flatMap fun i =>
    ((k.desc i).deps.filter (·.required)).map fun dep => ((k.provider dep.name).getD i, i)

variable {k}

theorem Ok.provides_unique (hk : k.Ok) {name : String} {i j : Fin k.size} (hi : k.Provides name i)
    (hj : k.Provides name j) : i = j := by
  obtain ⟨b, hb, hname, himpl⟩ := hi
  obtain ⟨b', hb', hname', himpl'⟩ := hj
  obtain ⟨s, rfl⟩ := mem_iff_get.mp hb
  obtain ⟨t, rfl⟩ := mem_iff_get.mp hb'
  obtain rfl := hk.slot_inj (hname.trans hname'.symm)
  exact hk.desc_inj (Option.some.inj (himpl.symm.trans himpl'))

theorem Ok.provider_eq_some_iff (hk : k.Ok) {name : String} {j : Fin k.size} :
    k.provider name = some j ↔ k.Provides name j := by
  constructor
  · intro h
    exact of_decide_eq_true (find?_some (p := fun j => decide (k.Provides name j)) h)
  · intro h
    cases hfind : k.provider name with
    | none => exact absurd (decide_eq_true h) (find?_eq_none.mp hfind j (mem_finRange j))
    | some i =>
      have hi := of_decide_eq_true (find?_some (p := fun j => decide (k.Provides name j)) hfind)
      rw [hk.provides_unique hi h]

theorem mem_edges {j i : Fin k.size} :
    (j, i) ∈ k.edges ↔ ∃ dep ∈ (k.desc i).deps, dep.required = true ∧
    (k.provider dep.name).getD i = j := by
  simp only [edges, mem_flatMap, mem_finRange, true_and, mem_map, mem_filter, Prod.mk.injEq]
  constructor
  · rintro ⟨i', dep, ⟨hdep, hreq⟩, hj, rfl⟩
    exact ⟨dep, hdep, hreq, hj⟩
  · rintro ⟨dep, hdep, hreq, hj⟩
    exact ⟨i, dep, ⟨hdep, hreq⟩, hj, rfl⟩

/-- A component that is not up is ready when all that comes before it is up. -/
theorem Ok.ready_iff (hk : k.Ok) {visited : Fin k.size → Bool} {i : Fin k.size}
    (hi : visited i = false) : k.Ready visited i ↔ ∀ e ∈ k.edges, e.2 = i → visited e.1 = true := by
  constructor
  · rintro hready ⟨j, i'⟩ he rfl
    obtain ⟨dep, hdep, hreq, rfl⟩ := mem_edges.mp he
    obtain ⟨j, hj, hup⟩ := hready dep hdep hreq
    simpa [hk.provider_eq_some_iff.mpr hj] using hup
  · intro hall dep hdep hreq
    have hup := hall (_, i) (mem_edges.mpr ⟨dep, hdep, hreq, rfl⟩) rfl
    cases hprov : k.provider dep.name with
    | none =>
      rw [hprov, Option.getD_none, hi] at hup
      cases hup
    | some j =>
      rw [hprov, Option.getD_some] at hup
      exact ⟨j, hk.provider_eq_some_iff.mp hprov, hup⟩

/-- There is an order just when everything is provided and nothing requires itself. -/
theorem Ok.acyclic_edges_iff (hk : k.Ok) :
    (∀ i, ¬ TransGen (fun j i => (j, i) ∈ k.edges) i i) ↔ k.Provided ∧ k.Acyclic := by
  have hedge : ∀ {i j}, k.Requires i j → (j, i) ∈ k.edges := by
    rintro i j ⟨dep, hdep, hreq, hj⟩
    exact mem_edges.mpr ⟨dep, hdep, hreq, by rw [hk.provider_eq_some_iff.mpr hj, Option.getD_some]⟩
  constructor
  · intro h
    refine ⟨fun i dep hdep hreq => ?_, fun i hcycle => ?_⟩
    · by_contra hno
      have hnone : k.provider dep.name = none := by
        cases hprov : k.provider dep.name with
        | none => rfl
        | some j => exact absurd ⟨j, hk.provider_eq_some_iff.mp hprov⟩ hno
      exact h i (.single (mem_edges.mpr ⟨dep, hdep, hreq, by rw [hnone, Option.getD_none]⟩))
    · exact h i (transGen_swap.mp (TransGen.mono (fun i j hij => hedge hij) i i hcycle))
  · rintro ⟨hprovided, hacyclic⟩ i hcycle
    refine hacyclic i (transGen_swap.mp (TransGen.mono (fun j i hji => ?_) i i hcycle))
    obtain ⟨dep, hdep, hreq, hget⟩ := mem_edges.mp hji
    obtain ⟨j', hj'⟩ := hprovided i dep hdep hreq
    rw [hk.provider_eq_some_iff.mpr hj', Option.getD_some] at hget
    exact ⟨dep, hdep, hreq, hget ▸ hj'⟩

end Composition

variable {k : Composition}

variable {r : Registry}

/-- `deps_ready` finds out whether what is required is up. -/
theorem Wired.depsReady_iff (h : Wired k r) (hk : k.Ok) (visited : Fin k.size → Bool) (i : Fin k.size) :
    k.depsReady r visited (k.desc i) = true ↔ k.Ready visited i := by
  rw [Composition.depsReady, all_eq_true]
  refine forall₂_congr fun dep _ => ?_
  rw [Bool.or_eq_true, Bool.not_eq_true', ← Bool.not_eq_true, ← imp_iff_not_or]
  refine imp_congr_right fun _ => ?_
  have hiff : ∀ c, ((r.nxSlotLookup (some dep.name)).bind fun s => (r.slot s).active) = some c ↔
      ∃ i : Fin k.size, c = (i : ℕ) ∧ k.Provides dep.name i := fun c => h.active_lookup_eq_some_iff hk
  have hnone : ((r.nxSlotLookup (some dep.name)).bind fun s => (r.slot s).active) = none →
      ∀ j, ¬ k.Provides dep.name j :=
    fun hno j hj => by simpa [hno] using (hiff j).mpr ⟨j, rfl, hj⟩
  cases hlookup : r.nxSlotLookup (some dep.name) with
  | none => simp [hnone (by rw [hlookup]; rfl)]
  | some s =>
    cases hactive : (r.slot s).active with
    | none => simp [hactive, hnone (by rw [hlookup, Option.bind_some, hactive])]
    | some c =>
      obtain ⟨j, rfl, hj⟩ := (hiff c).mp (by rw [hlookup, Option.bind_some, hactive])
      simp only [hactive, j.isLt, dite_true]
      constructor
      · intro hup
        exact ⟨j, hj, hup⟩
      · rintro ⟨j', hj', hup⟩
        rwa [hk.provides_unique hj hj']

/-! ### What is performed -/

/-- The operation is part of initialising the component: the call of its `init`, or the state that
follows. -/
def InitOp (c : CompId) (o : FwOp) : Prop :=
  o = .op .init c ∨ o = .reg (.componentStateSet (some c) .ready)

/-- The component has been initialised by the operations. -/
def Initialised (k : Composition) (l : List FwOp) (i : Fin k.size) : Prop :=
  .reg (.componentStateSet (some (i : ℕ)) .ready) ∈ l ∧
    (CompOp.init ∈ (k.desc i).ops → .op .init (i : ℕ) ∈ l)

/-- Components are initialised at most once, and after those they require. -/
structure InitOrder (k : Composition) (l : List FwOp) : Prop where
  once : ∀ i : Fin k.size, l.count (.op .init (i : ℕ)) ≤ 1
  after : ∀ i j, k.Requires i j → ∀ pre o post, l = pre ++ o :: post → InitOp i o → Initialised k pre j

/-- What is performed so far: the components that are up are initialised, and the others have not
been touched. -/
structure LogOk (k : Composition) (visited : Fin k.size → Bool) (l : List FwOp) : Prop where
  order : InitOrder k l
  fresh : ∀ i, visited i = false → ∀ o ∈ l, ¬ InitOp i o
  done : ∀ i, visited i = true → Initialised k l i

variable {l : List FwOp} {i : Fin k.size}

theorem Initialised.append (h : Initialised k l i) (l' : List FwOp) :
    Initialised k (l ++ l') i := ⟨mem_append_left _ h.1, fun hop => mem_append_left _ (h.2 hop)⟩

/-- Operations that initialise `i`, if those it requires have been initialised. -/
theorem InitOrder.append {l' : List FwOp} (h : InitOrder k l)
    (hready : ∀ i : Fin k.size, (∃ o ∈ l', InitOp i o) → (∀ o ∈ l, ¬ InitOp i o) ∧ ∀ j,
      k.Requires i j → Initialised k l j)
    (honce : ∀ i : Fin k.size, l'.count (.op .init (i : ℕ)) ≤ 1) : InitOrder k (l ++ l') where
  once i := by
    rw [count_append]
    by_cases hi : ∃ o ∈ l', InitOp i o
    · have hzero : l.count (.op .init (i : ℕ)) = 0 := count_eq_zero.mpr fun hmem => (hready i hi).1
        _ hmem (.inl rfl)
      rw [hzero, Nat.zero_add]
      exact honce i
    · have hzero : l'.count (.op .init (i : ℕ)) = 0 :=
        count_eq_zero.mpr fun hmem => hi ⟨_, hmem, .inl rfl⟩
      rw [hzero]
      exact h.once i
  after i j hij pre o post heq ho := by
    rcases append_eq_append_iff.mp heq with ⟨pre', rfl, htail⟩ | ⟨post', hl, htail⟩
    · exact ((hready i ⟨o, by simp [htail], ho⟩).2 j hij).append pre'
    · cases post' with
      | nil =>
        rw [append_nil] at hl
        rw [nil_append] at htail
        have hmem : o ∈ l' := htail ▸ mem_cons_self
        exact hl ▸ (hready i ⟨o, hmem, ho⟩).2 j hij
      | cons o' post' =>
        obtain ⟨rfl, rfl⟩ := List.cons.inj htail
        exact h.after i j hij pre o post' hl ho

/-- Operations that initialise nothing. -/
def Quiet (o : FwOp) : Prop := ∀ c, ¬ InitOp c o

theorem InitOrder.quiet {l' : List FwOp} (h : InitOrder k l) (hl' : ∀ o ∈ l', Quiet o) :
    InitOrder k (l ++ l') :=
  h.append (fun i hi => by
    obtain ⟨o, ho, hinit⟩ := hi
    exact absurd hinit (hl' o ho i)) fun i => by
      rw [count_eq_zero.mpr fun hmem => hl' _ hmem i (.inl rfl)]
      exact Nat.zero_le 1

variable {visited : Fin k.size → Bool}

theorem LogOk.quiet {l' : List FwOp} (h : LogOk k visited l) (hl' : ∀ o ∈ l', Quiet o) :
    LogOk k visited (l ++ l') where
  order := h.order.quiet hl'
  fresh i hi o ho := by
    rcases mem_append.mp ho with ho | ho
    · exact h.fresh i hi o ho
    · exact hl' o ho i
  done i hi := (h.done i hi).append l'

/-- Operations that initialise `i`, when it is ready. -/
theorem LogOk.init (hk : k.Ok) {l' : List FwOp} (h : LogOk k visited l) (hi : visited i = false)
    (hready : k.Ready visited i) (hl' : ∀ o ∈ l', ∀ c, InitOp c o → c = (i : ℕ))
    (honce : l'.count (.op .init (i : ℕ)) ≤ 1) :
    InitOrder k (l ++ l') ∧ (Initialised k l' i → LogOk k (update visited i true) (l ++ l')) := by
  have horder : InitOrder k (l ++ l') := by
    refine h.order.append ?_ fun j => ?_
    · rintro j ⟨o, ho, hinit⟩
      obtain rfl : j = i := Fin.ext (hl' o ho j hinit)
      refine ⟨h.fresh j hi, fun j' hj' => ?_⟩
      obtain ⟨dep, hdep, hreq, hprov⟩ := hj'
      obtain ⟨up, hup, hvisited⟩ := hready dep hdep hreq
      exact h.done j' (hk.provides_unique hup hprov ▸ hvisited)
    · by_cases hji : j = i
      · exact hji ▸ honce
      · rw [count_eq_zero.mpr fun hmem => hji (Fin.ext (hl' _ hmem j (.inl rfl)))]
        exact Nat.zero_le 1
  refine ⟨horder, fun hdone => ⟨horder, fun j hj o ho => ?_, fun j hj => ?_⟩⟩
  · by_cases hji : j = i
    · rw [hji, update_self] at hj
      cases hj
    · rw [update_of_ne hji] at hj
      rcases mem_append.mp ho with ho | ho
      · exact h.fresh j hj o ho
      · exact fun hinit => hji (Fin.ext (hl' o ho j hinit))
  · by_cases hji : j = i
    · rw [hji]
      exact ⟨mem_append_right _ hdone.1, fun hop => mem_append_right _ (hdone.2 hop)⟩
    · rw [update_of_ne hji] at hj
      exact (h.done j hj).append l'

/-! ### Bringing up one component -/

theorem all_orReturn {P : FwOp → Prop} {p : FwM ℤ} (h : Prog.All P p) : Prog.All P (orReturn p).run :=
  allOk_bind (allOk_lift h) fun _ => allOk_ite trivial trivial

theorem quiet_reg {call : RegCall} (h : ∀ c, call ≠ .componentStateSet (some c) .ready) :
    Quiet (.reg call) := by
  rintro c (ho | ho)
  · cases ho
  · exact h c (FwOp.reg.inj ho)

/-- The operations of bring-up other than those that initialise a component or bind it. -/
structure Permits (P : FwOp → Prop) : Prop where
  registry : P .registry
  calloc : P .calloc
  hook : ∀ c, P (.hook .enable c .active)
  enable : ∀ c, P (.op .enable c)
  active : ∀ c, P (.reg (.componentStateSet (some c) .active))
  slot : ∀ s calloc, P (.reg (.slotRegister (some s) calloc))
  component : ∀ c calloc, P (.reg (.componentRegister (some c) calloc))
  connection : ∀ src dst mode stateful policy callocConn callocNode,
    P (.reg (.connectionRegister src dst mode stateful policy callocConn callocNode))

theorem permits_quiet : Permits Quiet where
  registry := by rintro c (h | h) <;> cases h
  calloc := by rintro c (h | h) <;> cases h
  hook _ := by rintro c (h | h) <;> cases h
  enable _ := by rintro c (h | h) <;> cases h
  active _ := quiet_reg fun _ => by simp
  slot _ _ := quiet_reg fun _ => by simp
  component _ _ := quiet_reg fun _ => by simp
  connection _ _ _ _ _ _ _ := quiet_reg fun _ => by simp

section Permits

variable {P : FwOp → Prop} (hP : Permits P)
include hP

theorem Permits.nxResolveDeps (d : ComponentDescriptor) (selfSlot : Option SlotId) :
    Prog.All P (nxResolveDeps d selfSlot).run := by
  refine allOk_ite trivial (allOk_foldlM (fun _ dep => ?_) _ _)
  refine allOk_bind (allOk_lift (all_perform hP.registry)) fun r => ?_
  cases r.nxSlotLookup (some dep.name) with
  | none => exact allOk_ite trivial trivial
  | some tgt =>
    have hcalloc : Prog.All P (Prog.perform FwOp.calloc : FwM Bool) := all_perform hP.calloc
    exact allOk_bind (allOk_lift hcalloc) fun _ => allOk_bind (allOk_lift hcalloc) fun _ =>
      all_orReturn (all_regCall (hP.connection _ _ _ _ _ _ _))

theorem Permits.transitionFrom (c : CompId) (prev next : LifecycleState)
    (h : P (.reg (.componentStateSet (some c) next))) : Prog.All P (transitionFrom c prev next) :=
  all_op hP.registry fun _ =>
    all_ite (all_pure _) (all_ite (all_pure _) (all_regCall h))

theorem Permits.callOp (o : CompOp) (c : CompId) (h : P (.op o c)) : Prog.All P (callOp o c) :=
  all_op hP.registry fun _ => all_ite (all_perform h) (all_pure _)

theorem Permits.nxComponentEnable (c : CompId) : Prog.All P (nxComponentEnable c) := by
  refine all_op hP.registry fun r => all_ite (all_pure _) ?_
  refine all_bind (all_op (hP.hook c) fun _ => all_pure _) fun rc => ?_
  exact all_ite (all_pure _) (all_bind (hP.callOp .enable c (hP.enable c)) fun orc =>
    all_ite (all_pure _) (hP.transitionFrom c _ _ (hP.active c)))

theorem Permits.nxComponentInit (c : CompId) (hinit : P (.op .init c))
    (hready : P (.reg (.componentStateSet (some c) .ready))) : Prog.All P (nxComponentInit c) :=
  all_op hP.registry fun _ => all_ite (all_pure _)
    (all_bind (hP.callOp .init c hinit) fun _ =>
      all_ite (all_pure _) (hP.transitionFrom c _ _ hready))

theorem Permits.callocOrReturn : Prog.All P callocOrReturn.run :=
  allOk_bind (allOk_lift (all_perform hP.calloc)) fun _ => allOk_ite trivial trivial

theorem Permits.bootWire (k : Composition)
    (hswap : ∀ i s, k.findSlotFor (k.desc i) = some s → P (.reg (.slotSwap (some s) (some (i : ℕ))))) :
    Prog.All P (bootWire k).run := by
  have hcalloc : Prog.All P (Prog.perform FwOp.calloc : FwM Bool) := all_perform hP.calloc
  refine allOk_bind (allOk_foldlM (fun _ s => ?_) _ _) fun _ => allOk_ite trivial ?_
  · exact allOk_bind (allOk_lift hcalloc) fun _ =>
      allOk_bind (allOk_lift (all_regCall (hP.slot _ _))) fun _ => allOk_ite trivial trivial
  · refine allOk_bind hP.callocOrReturn fun _ =>
      allOk_bind (allOk_foldlM (fun _ i => ?_) _ _) fun _ => hP.callocOrReturn
    -- The component is registered, with its state or without, and put in its slot.
    refine allOk_bind hP.callocOrReturn fun _ =>
      allOk_ite (allOk_bind hP.callocOrReturn fun _ => ?_) ?_
    all_goals
      refine allOk_bind (allOk_lift hcalloc) fun _ =>
        allOk_bind (all_orReturn (all_regCall (hP.component _ _))) fun _ => ?_
      cases hfind : k.findSlotFor (k.desc i) with
      | none => trivial
      | some slot => exact all_orReturn (all_regCall (hswap i slot hfind))

end Permits

theorem connectionRegister_fails {fromSlot : Option SlotId} {dst : SlotId} {mode : ConnMode}
    {stateful : Bool} {policy : PausePolicy} {callocConn callocNode : Bool} {e : Err}
    (hto : r.HasSlot dst) (hfrom : ∀ s, fromSlot = some s → r.HasSlot s)
    (h : (RegCall.apply r (.connectionRegister fromSlot (some dst) mode stateful policy callocConn
      callocNode)).2 = .error e) :
    callocConn = false ∨ callocNode = false := by
  have hto' : r.slotNodeFor (some dst) ≠ none := Registry.slotNodeFor_ne_none_iff.mpr hto
  have hfrom' : ¬ (fromSlot.isSome ∧ r.slotNodeFor fromSlot = none) := by
    rintro ⟨hsome, hnone⟩
    obtain ⟨s, rfl⟩ := Option.isSome_iff_exists.mp hsome
    exact Registry.slotNodeFor_ne_none_iff.mpr (hfrom s rfl) hnone
  by_contra hno
  rw [RegCall.apply, Registry.nxConnectionRegister, if_neg hto', if_neg hfrom', if_neg hno] at h
  cases h

variable {a : Answers} {w : World}

/-- Connecting a component to what it depends on fails for want of memory only. -/
theorem endsOk_nxResolveDeps (hk : k.Ok) (h : Wired k w.reg) (ha : a.Later w.answers)
    (hprov : ∀ dep ∈ (k.desc i).deps, dep.required = true → ∃ j, k.Provides dep.name j) :
    Prog.EndsOk graphStep (nxResolveDeps (k.desc i) (k.findSlotFor (k.desc i))) w l
      (fun _ w' _ => Wired k w'.reg ∧ w'.reg.comp = w.reg.comp ∧ a.Later w'.answers) fun _ _ _ =>
      ¬ Obliging a := by
  have hstate : (k.desc i).stateSize ≠ 0 := (hk.state _ (get_mem _ i)).ne'
  rw [nxResolveDeps, if_neg hstate]
  refine endsOk_foldlM (fun _ _ (w' : World) _ => Wired k w'.reg ∧ w'.reg.comp = w.reg.comp ∧
    a.Later w'.answers) _ (fun pre dep post heq _ w' l' hw' => ?_) ⟨h, rfl, ha⟩
  obtain ⟨hwired, hcomp, hlater⟩ := hw'
  rw [resolveDep, endsOk_bind, endsOk_lift, ends_readRegistry]
  cases hlookup : w'.reg.nxSlotLookup (some dep.name) with
  | none =>
    rw [endsOk_ite, endsOk_throw, endsOk_pure]
    refine ⟨fun hreq => ?_, fun _ => ⟨hwired, hcomp, hlater⟩⟩
    obtain ⟨j, hj⟩ := hprov dep (heq ▸ by simp) hreq
    have := (hwired.active_lookup_eq_some_iff hk).mpr ⟨j, rfl, hj⟩
    rw [hlookup] at this
    cases this
  | some tgt =>
    obtain ⟨htgt, -⟩ := (hwired.nxSlotLookup_eq_some_iff hk).mp hlookup
    dsimp only
    rw [endsOk_bind, endsOk_lift, ends_calloc, endsOk_bind, endsOk_lift, ends_calloc]
    refine endsOk_regCall (fun r' he => ?_) fun e he hoblige => ?_
    · obtain ⟨hwired', hcomp'⟩ := hwired.connectionRegister he
      exact ⟨hwired', hcomp'.trans hcomp, (hlater.after _).after _⟩
    · have hself : ∀ s, k.findSlotFor (k.desc i) = some s → w'.reg.HasSlot s := fun s hs =>
        (hwired.hasSlot s).mpr ((hk.findSlotFor_eq_some_iff i).mp hs).1
      rcases connectionRegister_fails ((hwired.hasSlot tgt).mpr htgt) hself he with hfalse | hfalse
      · exact not_obliging_of_calloc hlater hfalse hoblige
      · exact not_obliging_of_calloc (hlater.after .calloc) hfalse hoblige

/-- What `nx_component_init` does to a component that is not initialised. -/
theorem ends_nxComponentInit (h : Wired k w.reg) (ha : a.Later w.answers)
    (hstate : (w.reg.comp i).state = .uninit) :
    Prog.Ends graphStep (nxComponentInit i) w l fun rc w' l' =>
      (∃ chunk, l' = l ++ chunk ∧ (∀ o ∈ chunk, ∀ c, InitOp c o → c = (i : ℕ)) ∧ chunk.count
        (.op .init (i : ℕ)) ≤ 1 ∧ (rc = nxOk → Initialised k chunk i)) ∧ a.Later w'.answers ∧
      (rc = nxOk → w'.reg = w.reg.setState i .ready) ∧ (rc ≠ nxOk → ¬ Obliging a) := by
  have hops : (w.reg.comp i).ops = (k.desc i).ops := by rw [h.ops, k.boot_comp]
  have hcode : (RegCall.apply w.reg (.componentStateSet (some (i : ℕ)) .ready)).2.code = nxOk := by
    rw [Registry.componentStateSet_code, Registry.setStateCode, if_pos ((h.hasComp i).mpr i.isLt)]
  have hmine : ∀ c, InitOp c (.op .init (i : ℕ)) → c = (i : ℕ) := by
    rintro c (ho | ho)
    · simpa using ho.symm
    · cases ho
  have hmine' : ∀ c, InitOp c (.reg (.componentStateSet (some (i : ℕ)) .ready)) → c = (i : ℕ) := by
    rintro c (ho | ho)
    · cases ho
    · simpa using ho.symm
  have hread : ∀ c, InitOp c .registry → c = (i : ℕ) := by rintro c (ho | ho) <;> cases ho
  rw [nxComponentInit, ends_bind, ends_readRegistry, if_neg (not_not.mpr hstate), ends_bind, callOp,
    ends_bind, ends_readRegistry]
  by_cases hhas : CompOp.init ∈ (w.reg.comp i).ops
  · rw [if_pos hhas, ends_perform]
    change Prog.Ends graphStep (if w.answers (.op .init (i : ℕ)) 0 ≠ nxOk then _ else _) _ _ _
    by_cases hrc : w.answers (.op .init (i : ℕ)) 0 = nxOk
    · rw [if_neg (not_not.mpr hrc), transitionFrom, ends_bind, ends_readRegistry]
      change Prog.Ends graphStep (if (w.reg.comp i).state ≠ _ then _ else _) _ _ _
      rw [if_neg (not_not.mpr hstate), if_neg (by decide), ends_regCall]
      refine ⟨⟨[.registry, .registry, .op .init i, .registry,
        .reg (.componentStateSet (some (i : ℕ)) .ready)],
          by simp, by simpa using ⟨hread, hmine, hread, hmine'⟩, by simp, fun _ => by simp [Initialised]⟩, ha.after _, fun _ => rfl,
        fun hne => absurd hcode hne⟩
    · rw [if_pos hrc]
      refine (ends_pure _).mpr
        ⟨⟨[.registry, .registry, .op .init i],
          by simp, by simpa using ⟨hread, hmine⟩, by simp, fun hok => absurd hok hrc⟩, ha.after _,
          fun hok => absurd hok hrc, fun _ hoblige => hrc ?_⟩
      exact (hoblige.later ha).init _ _
  · rw [if_neg hhas]
    refine (ends_pure _).mpr ?_
    rw [if_neg (by simp), transitionFrom, ends_bind, ends_readRegistry, if_neg (not_not.mpr hstate),
      if_neg (by decide), ends_regCall]
    refine ⟨⟨[.registry, .registry, .registry, .reg (.componentStateSet (some (i : ℕ)) .ready)], by simp,
      by simpa using ⟨hread, hmine'⟩, by simp, fun _ => ⟨by simp, fun hop => absurd (hops ▸ hop) hhas⟩⟩, ha, fun _ => rfl,
      fun hne => absurd hcode hne⟩

/-- What `nx_component_enable` does to a component that is ready. -/
theorem ends_nxComponentEnable (h : Wired k w.reg) (ha : a.Later w.answers)
    (hstate : (w.reg.comp i).state = .ready) :
    Prog.Ends graphStep (nxComponentEnable i) w l fun rc w' _ => a.Later w'.answers ∧
      (rc = nxOk → w'.reg = w.reg.setState i .active) ∧ (rc ≠ nxOk → ¬ Obliging a) := by
  have hcode : w.reg.setStateCode i = nxOk := if_pos ((h.hasComp i).mpr i.isLt)
  have hlater : a.Later (w.answers.after (.hook .enable i .active)) := ha.after _
  rw [Prog.Ends, run_nxComponentEnable, if_neg (not_not.mpr hstate), World.settle, Answers.consult]
  by_cases habort : w.answers (.hook .enable (i : ℕ) .active) 0 = true
  · rw [if_pos habort, if_pos (Err.code_ne_nxOk _)]
    refine ⟨hlater, fun hok => absurd hok (Err.code_ne_nxOk .eabort), fun _ hoblige => ?_⟩
    rw [(hoblige.later ha).hook] at habort
    cases habort
  · rw [if_neg habort, Answers.askOp]
    by_cases hhas : CompOp.enable ∈ (w.reg.comp i).ops
    · rw [if_pos hhas]
      by_cases hrc : (w.answers.after (.hook .enable i .active)) (.op .enable (i : ℕ)) 0 = nxOk
      · rw [if_neg (not_not.mpr hrc)]
        exact ⟨hlater.after _, fun _ => rfl, fun hne => absurd hcode hne⟩
      · rw [if_pos hrc]
        exact ⟨hlater.after _, fun hok => absurd hok hrc,
          fun _ hoblige => hrc ((hoblige.later hlater).enable _ _)⟩
    · rw [if_neg hhas, if_neg (by simp)]
      exact ⟨hlater, fun _ => rfl, fun hne => absurd hcode hne⟩

/-! ### A turn of the loop -/

/-- The state of a component, before and after it is brought up. -/
def Composition.stateOf (k : Composition) (up : Bool) (i : Fin k.size) : LifecycleState :=
  if up then if (k.findSlotFor (k.desc i)).isSome then .active else .ready else .uninit

/-- What holds between the visits of the loop. `a` are the answers that were there at the start. -/
structure BootInv (k : Composition) (a : Answers) (visited : Fin k.size → Bool) (w : World)
    (l : List FwOp) : Prop where
  wired : Wired k w.reg
  later : a.Later w.answers
  state : ∀ i : Fin k.size, (w.reg.comp i).state = k.stateOf (visited i) i
  log : LogOk k visited l

/-- Bring-up stopped because something stood in its way. -/
def BootStopped (k : Composition) (a : Answers) (l : List FwOp) : Prop := ¬ Obliging a ∧ InitOrder k l

theorem setState_state_of_ne {c c' : CompId} {st : LifecycleState} (hne : c' ≠ c) :
    ((r.setState c st).comp c').state = (r.comp c').state := by
  by_cases hc : r.HasComp c
  · rw [r.setState_comp c st hc, update_of_ne hne]
  · rw [r.setState_of_not_hasComp c st hc]

theorem setState_state_self {c : CompId} {st : LifecycleState} (hc : r.HasComp c) :
    ((r.setState c st).comp c).state = st := by
  rw [r.setState_comp c st hc, update_self]

/-- A program that performs quiet operations adds quiet operations. -/
theorem ends_quiet {α : Type} {p : FwM α} {Q : α → World → List FwOp → Prop}
    (h : Prog.Ends graphStep p w l Q) (hquiet : Prog.All Quiet p) :
    Prog.Ends graphStep p w l fun a w' l' => Q a w' l' ∧ ∃ chunk, l' = l ++ chunk ∧
      ∀ o ∈ chunk, Quiet o := by
  refine ⟨h, hquiet.ends (fun _ l' => ∃ chunk, l' = l ++ chunk ∧ ∀ o ∈ chunk, Quiet o) ?_
    ⟨[], by simp, by simp⟩⟩
  rintro o ho _ _ ⟨chunk, rfl, hchunk⟩
  refine ⟨chunk ++ [o], by simp, fun o' ho' => ?_⟩
  rcases mem_append.mp ho' with ho' | ho'
  · exact hchunk o' ho'
  · exact mem_singleton.mp ho' ▸ ho

/-- **Bringing a component up**, when what it requires is up. -/
theorem endsOk_bootBringUp (hk : k.Ok) (h : BootInv k a visited w l) (hi : visited i = false)
    (hready : k.Ready visited i) : Prog.EndsOk graphStep (bootBringUp k i) w l
      (fun _ w l => BootInv k a (update visited i true) w l) fun _ _ l => BootStopped k a l := by
  have hstate : (w.reg.comp i).state = .uninit := by rw [h.state, hi]; rfl
  have hprov : ∀ dep ∈ (k.desc i).deps, dep.required = true → ∃ j, k.Provides dep.name j :=
    fun dep hdep hreq =>
    (hready dep hdep hreq).imp fun _ hj => hj.1
  rw [bootBringUp, endsOk_bind]
  -- It is connected: nothing is initialised by that.
  have hresolve : Prog.EndsOk graphStep (nxResolveDeps (k.desc i) (k.findSlotFor (k.desc i))) w l
      (fun _ w' l' => Wired k w'.reg ∧ w'.reg.comp = w.reg.comp ∧ a.Later w'.answers ∧
        LogOk k visited l')
      fun _ _ l' => BootStopped k a l' := by
    refine (ends_quiet (endsOk_nxResolveDeps hk h.wired h.later hprov)
      (permits_quiet.nxResolveDeps _ _)).mono ?_
    rintro res w' _ ⟨hres, chunk, rfl, hchunk⟩
    cases res with
    | ok u => exact ⟨hres.1, hres.2.1, hres.2.2, h.log.quiet hchunk⟩
    | error rc => exact ⟨hres, h.log.order.quiet hchunk⟩
  refine hresolve.mono ?_ fun _ _ _ h => h
  rintro _ w₁ l₁ ⟨hwired, hcomp, hlater, hlog⟩
  rw [← hcomp] at hstate
  rw [endsOk_bind, endsOk_orReturn]
  -- It is initialised.
  refine (ends_nxComponentInit hwired hlater hstate).mono ?_
  rintro rc w₂ _ ⟨⟨chunk, rfl, hmine, honce, hdone⟩, hlater₂, hreg, hfail⟩
  obtain ⟨horder, hlog₂⟩ := hlog.init hk hi hready hmine honce
  refine ⟨fun hrc => ?_, fun hrc => ⟨hfail hrc, horder⟩⟩
  have hlog₂ := hlog₂ (hdone hrc)
  have hwired₂ : Wired k w₂.reg := by
    rw [hreg hrc]
    exact hwired.setState i .ready
  have hready₂ : (w₂.reg.comp i).state = .ready := by
    rw [hreg hrc]
    exact setState_state_self ((hwired.hasComp i).mpr i.isLt)
  have hothers : ∀ j : Fin k.size, j ≠ i → (w₂.reg.comp j).state = k.stateOf (visited j) j :=
      fun j hj => by
    rw [hreg hrc, setState_state_of_ne fun heq => hj (Fin.ext heq), hcomp, h.state]
  -- It is enabled, if it is behind a slot.
  rw [endsOk_ite]
  refine ⟨fun hsome => ?_, fun hnone => ?_⟩
  · rw [endsOk_orReturn]
    refine (ends_quiet (ends_nxComponentEnable hwired₂ hlater₂ hready₂)
      (permits_quiet.nxComponentEnable _)).mono ?_
    rintro rc' w₃ _ ⟨⟨hlater₃, hreg₃, hfail₃⟩, chunk', rfl, hquiet⟩
    refine ⟨fun hrc' => ⟨?_, hlater₃, fun j => ?_, hlog₂.quiet hquiet⟩,
      fun hrc' => ⟨hfail₃ hrc', horder.quiet hquiet⟩⟩
    · rw [hreg₃ hrc']
      exact hwired₂.setState i .active
    · rw [hreg₃ hrc']
      by_cases hji : j = i
      · rw [hji, setState_state_self ((hwired₂.hasComp i).mpr i.isLt), update_self]
        simp [Composition.stateOf, hsome]
      · rw [setState_state_of_ne fun heq => hji (Fin.ext heq), hothers j hji, update_of_ne hji]
  · refine (endsOk_pure ()).mpr ⟨hwired₂, hlater₂, fun j => ?_, hlog₂⟩
    by_cases hji : j = i
    · rw [hji, hready₂, update_self]
      simp [Composition.stateOf, hnone]
    · rw [hothers j hji, update_of_ne hji]

/-- The work after a visit in which nothing stood in the way. -/
def Composition.visitWork (k : Composition) (b : BootWork k.size) (i : Fin k.size) : BootWork k.size :=
  if b.visited i = true ∨ ¬ k.Ready b.visited i then b else b.mark i

variable {b : BootWork k.size}

theorem endsOk_bootVisit (hk : k.Ok) (h : BootInv k a b.visited w l) (i : Fin k.size) :
    Prog.EndsOk graphStep (bootVisit k b i) w l
      (fun b' w l => b' = k.visitWork b i ∧ BootInv k a b'.visited w l) fun _ _ l =>
      BootStopped k a l := by
  rw [bootVisit, endsOk_ite, Composition.visitWork]
  refine ⟨fun hup => (endsOk_pure b).mpr ⟨(if_pos (.inl hup)).symm, h⟩, fun hi => ?_⟩
  rw [Bool.not_eq_true] at hi
  rw [endsOk_bind, endsOk_lift, ends_readRegistry]
  have hread : BootInv k a b.visited w (l ++ [.registry]) :=
    ⟨h.wired, h.later, h.state, h.log.quiet fun o ho => mem_singleton.mp ho ▸ permits_quiet.registry⟩
  rw [endsOk_ite, Bool.eq_false_iff, ne_eq, h.wired.depsReady_iff hk]
  refine ⟨fun hno => (endsOk_pure b).mpr ⟨(if_pos (.inr hno)).symm, hread⟩, fun hready => ?_⟩
  rw [not_not] at hready
  rw [endsOk_bind, if_neg (by simp [hi, hready])]
  refine (endsOk_bootBringUp hk hread hi hready).mono (fun _ w l hinv => ?_) fun _ _ _ h => h
  exact (endsOk_pure _).mpr ⟨rfl, hinv⟩

theorem endsOk_bootSweep (hk : k.Ok) (h : BootInv k a b.visited w l) :
    Prog.EndsOk graphStep (bootSweep k b) w l
      (fun b' w l => b' = forLoop k.size k.visitWork { b with progressed := false } ∧
        BootInv k a b'.visited w l)
      fun _ _ l => BootStopped k a l :=
  endsOk_foldlM (fun pre b' w l => b' = pre.foldl k.visitWork { b with progressed := false } ∧
    BootInv k a b'.visited w l) _ (fun pre i post _ b' w l hb' => by
      refine (endsOk_bootVisit hk hb'.2 i).mono (fun b'' w l hb'' => ⟨?_, hb''.2⟩) fun _ _ _ h => h
      rw [hb''.1, hb'.1, foldl_append]
      rfl) ⟨rfl, h⟩

/-! ### The loop is the sort -/

/-- The work of the loop is the work of the sort. -/
structure SortsAs (b : BootWork k.size) (v : Kahn.Work k.size) : Prop where
  visited : b.visited = v.done
  done : b.done = v.order.length
  progressed : b.progressed = v.progress

variable {v : Kahn.Work k.size}

theorem SortsAs.visit (hk : k.Ok) (h : SortsAs b v) (hv : Kahn.Right k.edges v) (i : Fin k.size) :
    SortsAs (k.visitWork b i) (Kahn.visit k.edges v i) := by
  have hiff : (b.visited i = true ∨ ¬ k.Ready b.visited i) ↔ (v.done i = true ∨ v.deg i ≠ 0) := by
    rw [h.visited]
    by_cases hi : v.done i = true
    · simp [hi]
    · have hi' : v.done i = false := by simpa using hi
      rw [hk.ready_iff hi', or_iff_right hi, or_iff_right hi, hv.deg, not_iff_not, Nat.cast_eq_zero,
        countP_eq_zero]
      refine forall₂_congr fun e _ => ?_
      rw [decide_eq_true_eq, not_and, not_not, ← hv.done]
  unfold Composition.visitWork Kahn.visit
  by_cases hskip : b.visited i = true ∨ ¬ k.Ready b.visited i
  · rwa [if_pos hskip, if_pos (hiff.mp hskip)]
  · rw [if_neg hskip, if_neg (mt hiff.mpr hskip)]
    exact ⟨by rw [BootWork.mark, h.visited], by simp [BootWork.mark, h.done], rfl⟩

theorem SortsAs.sweep (hk : k.Ok) (h : SortsAs b v) (hv : Kahn.Right k.edges v) :
    SortsAs (forLoop k.size k.visitWork { b with progressed := false }) (Kahn.sweep k.edges v) := by
  have hfold : ∀ (is : List (Fin k.size)) (b : BootWork k.size) (v : Kahn.Work k.size), SortsAs b v →
      Kahn.Right k.edges v → SortsAs (is.foldl k.visitWork b) (is.foldl (Kahn.visit k.edges) v) := by
    intro is
    induction is with
    | nil => exact fun _ _ h _ => h
    | cons i is ih => exact fun b v h hv => ih _ _ (h.visit hk hv i) (hv.visit i)
  exact hfold _ _ _ ⟨h.visited, h.done, rfl⟩ { hv with }

/-- **The loop brings up all components, in the order of the sort, or it stops where the sort
stops.** -/
theorem endsOk_bootSweeps (hk : k.Ok) (turns : ℕ) (h : BootInv k a b.visited w l) (hb : SortsAs b v)
    (hv : Kahn.Right k.edges v) (hturns : k.size ≤ v.order.length + turns) :
    Prog.EndsOk graphStep (bootSweeps k turns b) w l
      (fun finished w l => finished = true ∧ (Kahn.sweeps k.edges turns v).isSome ∧ BootInv k a
        (fun _ => true) w l)
      fun rc _ l => BootStopped k a l ∨
        (rc = Err.eloop.code ∧ Kahn.sweeps k.edges turns v = none ∧ InitOrder k l) := by
  have hall : ∀ {b : BootWork k.size} {v : Kahn.Work k.size} {w : World} {l : List FwOp},
      BootInv k a b.visited w l → SortsAs b v → Kahn.Right k.edges v → k.size ≤ v.order.length →
        BootInv k a (fun _ => true) w l := fun {_ v _ _} hinv hb hv hlen => by
    have hup : ∀ i, v.done i = true :=
      fun i => (hv.done i).mpr ((Kahn.forall_mem_iff hv.nodup).mpr hlen i)
    rwa [hb.visited, funext hup] at hinv
  induction turns generalizing b v w l with
  | zero =>
    rw [bootSweeps, Kahn.sweeps, if_neg (by omega)]
    exact (endsOk_pure _).mpr ⟨decide_eq_true (by rw [hb.done]; omega), rfl, hall h hb hv (by omega)⟩
  | succ turns ih =>
    rw [bootSweeps, Kahn.sweeps, hb.done, endsOk_ite]
    refine ⟨fun hlt => ?_, fun hge => ?_⟩
    · rw [endsOk_bind, if_pos hlt]
      refine (endsOk_bootSweep hk h).mono ?_ fun _ _ _ hstop => .inl hstop
      rintro b' w' l' ⟨rfl, hinv⟩
      have hb' := hb.sweep hk hv
      rw [endsOk_ite, hb'.progressed]
      refine ⟨fun hstuck => ?_, fun hprogress => ?_⟩
      · rw [if_pos hstuck]
        exact (endsOk_throw _).mpr (.inr ⟨rfl, rfl, hinv.log.order⟩)
      · rw [if_neg hprogress]
        exact ih hinv hb' hv.sweep (by have := Kahn.sweep_length hprogress; omega)
    · rw [if_neg hge]
      exact (endsOk_pure _).mpr ⟨rfl, rfl, hall h hb hv (by omega)⟩

/-! ### Bring-up as a whole -/

/-- Before the loop everything is registered and nothing is initialised. -/
theorem bootInv_start (hwired : Wired k w.reg) (hcomp : w.reg.comp = k.boot.comp)
    (hlater : a.Later w.answers) (hquiet : ∀ o ∈ l, Quiet o) :
    BootInv k a (fun _ => false) w l where
  wired := hwired
  later := hlater
  state i := by
    rw [hcomp, k.boot_comp]
    rfl
  log := by
    have hnil : LogOk k (fun _ => false) [] :=
      ⟨⟨by simp, by simp⟩, by simp, by simp⟩
    exact hnil.quiet hquiet

/-- All components are up, or there is a reason why not. -/
theorem endsOk_bootAll (hk : k.Ok) (hosted : Bool) (a : Answers) {turns : ℕ} (hturns : k.size ≤ turns) :
    Prog.EndsOk graphStep (bootAll k hosted turns) ⟨k.boot, a⟩ []
      (fun finished w l => finished = true ∧ (k.Provided ∧ k.Acyclic) ∧ BootInv k a (fun _ => true) w l)
      fun rc _ l => BootStopped k a l ∨
      (rc = Err.eloop.code ∧ ¬ (k.Provided ∧ k.Acyclic) ∧ InitOrder k l) := by
  have horder := (Kahn.sweeps_isSome_iff k.edges hturns).trans hk.acyclic_edges_iff
  rw [bootAll, endsOk_bind]
  refine (ends_quiet (endsOk_bootWire hk a [])
    (permits_quiet.bootWire k fun _ _ _ => quiet_reg fun _ => by simp)).mono ?_
  rintro res w _ ⟨hres, chunk, rfl, hchunk⟩
  cases res with
  | error rc =>
    have hnil : InitOrder k [] := ⟨by simp, by simp⟩
    exact .inl ⟨hres, hnil.quiet hchunk⟩
  | ok u =>
    obtain ⟨hwired, hcomp, hlater⟩ := hres
    have hinv := bootInv_start hwired hcomp hlater hchunk
    refine endsOk_ite.mpr ⟨fun hsize => (endsOk_pure _).mpr ?_, fun _ => endsOk_bind.mpr ?_⟩
    · have hempty : IsEmpty (Fin k.size) := by rw [hsize]; infer_instance
      refine ⟨rfl, ⟨fun i => hempty.elim i, fun i => hempty.elim i⟩, ?_⟩
      rwa [show (fun _ : Fin k.size => true) = fun _ => false from funext fun i => hempty.elim i]
    · refine (endsOk_bootSweeps hk turns (v := Kahn.start k.edges) hinv ⟨rfl, rfl, rfl⟩
        (Kahn.right_start k.edges) (hturns.trans (Nat.le_add_left _ _))).mono ?_ ?_
      · rintro finished w' l' ⟨rfl, hsome, hinv'⟩
        have hdone := horder.mp hsome
        refine endsOk_ite.mpr ⟨fun _ => endsOk_bind.mpr ?_, fun _ => ?_⟩
        · have hlog : ∀ o ∈ [FwOp.calloc], Quiet o :=
            fun o ho => mem_singleton.mp ho ▸ permits_quiet.calloc
          refine endsOk_callocOrReturn ?_ fun hfalse =>
            .inl ⟨not_obliging_of_calloc hinv'.later hfalse, hinv'.log.order.quiet hlog⟩
          exact (endsOk_pure _).mpr
            ⟨rfl, hdone, hinv'.wired, hinv'.later.after .calloc, hinv'.state, hinv'.log.quiet hlog⟩
        · exact (endsOk_pure _).mpr ⟨rfl, hdone, hinv'⟩
      · rintro rc w' l' (hstop | ⟨hrc, hnone, hlog⟩)
        · exact .inl hstop
        · refine .inr ⟨hrc, fun hok => ?_, hlog⟩
          have := horder.mpr hok
          rw [hnone] at this
          cases this

/-- What a run of bring-up from the empty registry returns. -/
def Composition.bootRun (k : Composition) (hosted : Bool) (turns : ℕ) (a : Answers) : World × Option ℤ :=
  Prog.run graphStep (nxFrameworkBootstrap k hosted turns) ⟨k.boot, a⟩

/-- Bring-up ends, and after success every component is up. -/
theorem ends_bootstrap (hk : k.Ok) (hosted : Bool) (a : Answers) {turns : ℕ} (hturns : k.size ≤ turns) :
    Prog.Ends graphStep (nxFrameworkBootstrap k hosted turns) ⟨k.boot, a⟩ [] fun res w l =>
      ∃ rc, res = some rc ∧ (Obliging a → (rc = nxOk ↔ k.Provided ∧ k.Acyclic)) ∧ InitOrder k l ∧
        (Obliging a → rc = nxOk →
          Wired k w.reg ∧ ∀ i : Fin k.size, (w.reg.comp i).state = k.stateOf true i) := by
  rw [nxFrameworkBootstrap, ends_bind]
  refine Prog.Ends.mono (endsOk_bootAll hk hosted a hturns) fun res w l hres => (ends_pure _).mpr ?_
  cases res with
  | ok finished =>
    obtain ⟨rfl, hok, hinv⟩ := hres
    exact ⟨nxOk, rfl, fun _ => iff_of_true rfl hok, hinv.log.order, fun _ _ => ⟨hinv.wired, hinv.state⟩⟩
  | error rc =>
    refine ⟨rc, rfl, ?_⟩
    rcases hres with ⟨hnot, hlog⟩ | ⟨rfl, hno, hlog⟩
    · exact ⟨fun hoblige => absurd hoblige hnot, hlog, fun hoblige => absurd hoblige hnot⟩
    · exact ⟨fun _ => iff_of_false (by decide) hno, hlog, fun _ hrc => absurd hrc (by decide)⟩

/-- **Bring-up**: it ends, with success just when every required dependency is provided and none
leads back to where it started, if nothing else stands in the way. In every run a component is
initialised at most once, and after the components behind the slots that it requires. -/
theorem bootstrap_correct (k : Composition) (hk : k.Ok) (hosted : Bool) (a : Answers) (turns : ℕ)
    (hturns : k.size ≤ turns) :
    ∃ rc, (k.bootRun hosted turns a).2 = some rc ∧ (Obliging a → (rc = nxOk ↔ k.Provided ∧ k.Acyclic)) ∧
      InitOrder k (Prog.performed graphStep (nxFrameworkBootstrap k hosted turns) ⟨k.boot, a⟩) := by
  obtain ⟨rc, hrc, hiff, horder, -⟩ := ends_bootstrap hk hosted a hturns
  exact ⟨rc, hrc, hiff, horder⟩

/-- The file system in front of a driver that comes later in the list. -/
def vfsComposition : Composition where
  bootSlots := [{ name := "vfs", implName := some "vfs_simple" },
    { name := "block", implName := some "ramdisk" }]
  components := [{ name := "vfs_simple", deps := [{ name := "block" }], ops := [.init] },
    { name := "ramdisk" }]

theorem vfsComposition_ok : vfsComposition.Ok :=
  ⟨by decide, by decide, by decide, by decide⟩

theorem bootstrap_correct_vfs :
    vfsComposition.size = 2 ∧ ∃ rc, (vfsComposition.bootRun true 2 agreeable).2 = some rc ∧
    (Obliging agreeable → (rc = nxOk ↔ vfsComposition.Provided ∧ vfsComposition.Acyclic)) ∧
    InitOrder vfsComposition
      (Prog.performed graphStep (nxFrameworkBootstrap vfsComposition true 2)
        ⟨vfsComposition.boot, agreeable⟩) :=
  ⟨rfl, bootstrap_correct vfsComposition vfsComposition_ok true agreeable 2 le_rfl⟩

/-- After success everything is as the tables say, and every component is up. -/
theorem bootstrap_active (hk : k.Ok) (hosted : Bool) (ha : Obliging a) {turns : ℕ}
    (hturns : k.size ≤ turns) (hprovided : k.Provided) (hacyclic : k.Acyclic) :
    (k.bootRun hosted turns a).2 = some nxOk ∧ Wired k (k.bootRun hosted turns a).1.reg ∧
      ∀ i : Fin k.size, ((k.bootRun hosted turns a).1.reg.comp i).state = k.stateOf true i := by
  obtain ⟨rc, hrc, hiff, -, hup⟩ := ends_bootstrap hk hosted a hturns
  obtain rfl : rc = nxOk := (hiff ha).mpr ⟨hprovided, hacyclic⟩
  exact ⟨hrc, hup ha rfl⟩

/-! ### What is behind a slot -/

/-- What is put behind a slot is a component that finds the slot. -/
def Binds (k : Composition) (o : FwOp) : Prop :=
  ∀ s impl, o = .reg (.slotSwap (some s) impl) → ∃ i, k.findSlotFor (k.desc i) = some s

theorem permits_binds (k : Composition) : Permits (Binds k) := by
  constructor <;> intros <;> intro s impl ho <;> cases ho

theorem all_binds (k : Composition) (hosted : Bool) (turns : ℕ) :
    Prog.All (Binds k) (nxFrameworkBootstrap k hosted turns) := by
  have hP := permits_binds k
  have hup : ∀ i, Prog.All (Binds k) (bootBringUp k i).run := fun i => by
    refine allOk_bind (hP.nxResolveDeps _ _) fun _ => allOk_bind
      (all_orReturn (hP.nxComponentInit _ ?_ ?_))
      fun _ => allOk_ite (all_orReturn (hP.nxComponentEnable _)) trivial
    · rintro s impl ⟨⟩
    · rintro s impl ⟨⟩
  have hvisit : ∀ b i, Prog.All (Binds k) (bootVisit k b i).run := fun b i =>
    allOk_ite trivial (allOk_bind (allOk_lift (all_perform hP.registry)) fun _ =>
      allOk_ite trivial (allOk_bind (hup i) fun _ => trivial))
  have hsweeps : ∀ b, Prog.All (Binds k) (bootSweeps k turns b).run := by
    induction turns with
    | zero => exact fun _ => trivial
    | succ turns ih =>
      exact fun b => allOk_ite (allOk_bind (allOk_foldlM hvisit _ _) fun b' =>
        allOk_ite trivial (ih b')) trivial
  have hall : Prog.All (Binds k) (bootAll k hosted turns).run := by
    refine allOk_bind (hP.bootWire k fun i s hfind => ?_) fun _ => allOk_ite trivial
      (allOk_bind (hsweeps _) fun _ => allOk_ite (allOk_bind hP.callocOrReturn fun _ => trivial) trivial)
    rintro s' impl ⟨⟩
    exact ⟨i, hfind⟩
  exact all_bind hall fun _ => all_pure _

/-- Only a swap changes what is behind a slot. -/
theorem Effect.active_eq {r' : Registry} {call : RegCall} (he : Effect r call r') {s : SlotId}
    (hne : ∀ impl, call ≠ .slotSwap (some s) impl) : (r'.slot s).active = (r.slot s).active := by
  have hkeep : ∀ {t : SlotId} {sl : Slot}, (s = t → sl.active = (r.slot t).active) →
      (update r.slot t sl s).active = (r.slot s).active := fun {t sl} hsl => by
    by_cases hst : s = t
    · rw [hst, update_self, hsl hst]
    · rw [update_of_ne hst]
  cases he with
  | slotSwap => exact hkeep fun hst => absurd (by rw [hst]) (hne _)
  | slotRegister | slotSetFallback | slotSetPauseState => exact hkeep fun _ => rfl
  | _ => rfl

/-- **Whatever the tables are, a slot gets a component only if a component finds it.** -/
theorem bootstrap_bound (k : Composition) (hosted : Bool) (turns : ℕ) (a : Answers) {s : SlotId}
    {c : CompId} (h : ((k.bootRun hosted turns a).1.reg.slot s).active = some c) :
    ∃ i, k.findSlotFor (k.desc i) = some s := by
  refine (all_binds k hosted turns).run_inv
    (fun w : World => ∀ s c, (w.reg.slot s).active = some c → ∃ i,
      k.findSlotFor (k.desc i) = some s) ?_ ?_ s c h
  · intro o ho w hw s c hactive
    cases o with
    | reg call =>
      by_cases hswap : ∃ impl, call = .slotSwap (some s) impl
      · obtain ⟨impl, rfl⟩ := hswap
        exact ho s impl rfl
      · have hsame : ((call.next w.reg).slot s).active = (w.reg.slot s).active :=
          RegCall.next_inv (I := fun r => (r.slot s).active = (w.reg.slot s).active) rfl fun r' he =>
            he.active_eq fun impl heq => hswap ⟨impl, heq⟩
        exact hw s c (hsame ▸ hactive)
    | _ => exact hw s c hactive
  · intro s c hactive
    have hnone : (k.boot.slot s).active = none := by
      change ((k.bootSlots[s]?).elim {} _ : Slot).active = none
      cases k.bootSlots[s]? <;> rfl
    rw [hnone] at hactive
    cases hactive

end Nonux.Framework
