import Nonux.Framework.Bootstrap
import Nonux.Framework.GraphConsistency

/-!
# The graph that bring-up makes

The first two steps of `nx_framework_bootstrap` register all slots and all components, and put every
component behind the slot that names it. They can fail for want of memory only (`endsOk_bootWire`),
if no two slots and no two components have the same name. The loop that follows connects slots and
changes the states of components; the slots, what is behind them and their names stay (`Wired`). So
what a dependency finds is known beforehand: it is the component that the tables say
(`Composition.Provides`).
-/

namespace Nonux.Framework

open Nonux.Lib Function List
open Prog hiding pure

/-! ### Surroundings that agree -/

/-- Answers that come later. -/
def Answers.Later (a a' : Answers) : Prop := ∀ o k, ∃ k', a' o k = a o k'

theorem Answers.Later.refl (a : Answers) : a.Later a := fun _ k => ⟨k, rfl⟩

variable {a : Answers}

variable {a' : Answers}

theorem Answers.Later.after (h : a.Later a') (o : FwOp) : a.Later (a'.after o) := by
  intro o' k
  by_cases ho : o' = o
  · subst ho
    simpa [Answers.after] using h o' (k + 1)
  · rw [Answers.after_of_ne ho]
    exact h o' k

/-- There is memory enough, no hook aborts, and components can be initialised and enabled. -/
structure Obliging (a : Answers) : Prop where
  calloc : ∀ k, a .calloc k = true
  hook : ∀ point c next k, a (.hook point c next) k = false
  init : ∀ c k, a (.op .init c) k = nxOk
  enable : ∀ c k, a (.op .enable c) k = nxOk

theorem obliging_agreeable :
    Obliging agreeable := ⟨fun _ => rfl, fun _ _ _ _ => rfl, fun _ _ => rfl, fun _ _ => rfl⟩

theorem Obliging.later (h : Obliging a) (hlater : a.Later a') : Obliging a' where
  calloc k := by
    obtain ⟨k', hk'⟩ := hlater .calloc k
    rw [hk', h.calloc]
  hook point c next k := by
    obtain ⟨k', hk'⟩ := hlater (.hook point c next) k
    rw [hk', h.hook]
  init c k := by
    obtain ⟨k', hk'⟩ := hlater (.op .init c) k
    rw [hk', h.init]
  enable c k := by
    obtain ⟨k', hk'⟩ := hlater (.op .enable c) k
    rw [hk', h.enable]

/-- Where memory is short, it was not enough. -/
theorem not_obliging_of_calloc (hlater : a.Later a') (hfalse : a' .calloc 0 = false) : ¬ Obliging a := by
  intro hoblige
  rw [(hoblige.later hlater).calloc] at hfalse
  cases hfalse

/-! ### Rules -/

section Rules

variable {w : World} {l : List FwOp} {Q : Unit → World → List FwOp → Prop}
  {E : ℤ → World → List FwOp → Prop}

theorem ends_readRegistry {R : Registry → World → List FwOp → Prop} :
    Prog.Ends graphStep readRegistry w l R ↔ R w.reg w (l ++ [.registry]) := ends_perform

theorem ends_calloc {R : Bool → World → List FwOp → Prop} :
    Prog.Ends graphStep (Prog.perform FwOp.calloc : FwM Bool) w l R ↔
      R (w.answers .calloc 0) ⟨w.reg, w.answers.after .calloc⟩ (l ++ [.calloc]) := ends_perform

theorem ends_regCall {call : RegCall} {R : ℤ → World → List FwOp → Prop} :
    Prog.Ends graphStep (regCall call) w l R ↔
      R (call.apply w.reg).2.code ⟨call.next w.reg, w.answers⟩ (l ++ [.reg call]) :=
  ends_bind.trans (ends_perform.trans (ends_pure _))

theorem endsOk_orReturn {p : FwM ℤ} :
    Prog.EndsOk graphStep (orReturn p) w l Q E ↔
      Prog.Ends graphStep p w l fun rc w l => (rc = nxOk → Q () w l) ∧ (rc ≠ nxOk → E rc w l) := by
  rw [orReturn, endsOk_bind, endsOk_lift]
  refine iff_of_eq (congrArg (Prog.Ends graphStep p w l) ?_)
  funext rc w l
  rw [endsOk_ite, endsOk_throw, endsOk_pure, not_not]
  exact propext and_comm

/-- A call of the registry that fails changes nothing. -/
theorem endsOk_regCall {call : RegCall}
    (hok : ∀ r', Effect w.reg call r' → Q () ⟨r', w.answers⟩ (l ++ [.reg call]))
    (hfail : ∀ e, (call.apply w.reg).2 = .error e → E e.code w (l ++ [.reg call])) :
    Prog.EndsOk graphStep (orReturn (regCall call)) w l Q E := by
  rw [endsOk_orReturn, ends_regCall]
  cases hst : (call.apply w.reg).2 with
  | ok u =>
    exact ⟨fun _ => hok _ (RegCall.effect_of_ok hst), fun hne => absurd rfl hne⟩
  | error e =>
    refine ⟨fun h => absurd h (Err.code_ne_nxOk e), fun _ => ?_⟩
    rw [RegCall.apply_error hst]
    exact hfail e hst

theorem endsOk_callocOrReturn (hok : Q () ⟨w.reg, w.answers.after .calloc⟩ (l ++ [.calloc]))
    (hfail : w.answers .calloc 0 = false → E Err.enomem.code ⟨w.reg, w.answers.after .calloc⟩
      (l ++ [.calloc])) :
    Prog.EndsOk graphStep callocOrReturn w l Q E := by
  rw [callocOrReturn, endsOk_bind, endsOk_lift, ends_calloc, endsOk_ite, endsOk_throw,
    endsOk_pure]
  exact ⟨hfail, fun _ => hok⟩

end Rules

/-! ### The edges of the dependencies -/

/-- The slots, in the order of the list, are all that a lookup reads. -/
theorem Registry.nxSlotLookup_congr {r r' : Registry}
    (hslots : r'.nxGraphForeachSlot = r.nxGraphForeachSlot) (hslot : r'.slot = r.slot) :
    r'.nxSlotLookup = r.nxSlotLookup := by
  have hfind : ∀ (r : Registry) name, r.nxSlotLookup name =
      r.nxGraphForeachSlot.find? fun s => decide ((r.slot s).name ≠ none ∧ (r.slot s).name = name) := by
    intro r name
    cases name <;> simp [nxSlotLookup, slotNodeFind, nxGraphForeachSlot, find?_map]
  funext name
  rw [hfind, hfind, hslots, hslot]

theorem Registry.slotNodeFind_some {r : Registry} {name : String} {n : SlotNode}
    (h : r.slotNodeFind (some name) = some n) :
    r.HasSlot n.slot ∧ (r.slot n.slot).name = some name := by
  rw [Registry.slotNodeFind] at h
  have hname := find?_some h
  exact ⟨mem_map_of_mem (mem_of_find?_eq_some h), (of_decide_eq_true hname).2⟩

/-- The edge to the slot that a dependency finds. -/
def DepDescriptor.edge (r : Registry) (selfSlot : Option SlotId) (dep : DepDescriptor) :
    Option Connection :=
  (r.nxSlotLookup (some dep.name)).map fun tgt => ⟨selfSlot, tgt, dep.mode, dep.stateful, dep.policy⟩

/-- The edges of a list of dependencies. -/
def edgesOf (r : Registry) (selfSlot : Option SlotId) (deps : List DepDescriptor) : List Connection :=
  deps.filterMap (DepDescriptor.edge r selfSlot)

/-- The error for an edge to a registered slot. -/
def Registry.edgeError (r : Registry) (selfSlot : Option SlotId) (callocConn callocNode : Bool) :
    Option Err :=
  if ∃ s ∈ selfSlot, ¬ r.HasSlot s then some .enoent
  else if callocConn = false ∨ callocNode = false then some .enomem
  else none

/-- The error at which the walk stops at a dependency, if it does, after it has made some edges:
each of them has used up two answers to `calloc`. -/
def DepDescriptor.stop (w : World) (selfSlot : Option SlotId) (made : ℕ) (dep : DepDescriptor) :
    Option Err :=
  if (w.reg.nxSlotLookup (some dep.name)).isSome then
    w.reg.edgeError selfSlot (w.answers .calloc (2 * made)) (w.answers .calloc (2 * made + 1))
  else if dep.required then some .enoent
  else none

/-- Connections have been added to those of a registry, the last one in front. -/
structure Registry.EdgesAdded (r : Registry) (edges : List Connection) (r' : Registry) : Prop where
  next : r'.nextConn = r.nextConn + edges.length
  connections : r'.connections = (List.range' r.nextConn edges.length).reverse ++ r.connections
  new : (List.range' r.nextConn edges.length).map r'.conn = edges
  old : ∀ c < r.nextConn, r'.conn c = r.conn c
  slots : r'.nxGraphForeachSlot = r.nxGraphForeachSlot
  slot : r'.slot = r.slot

theorem Registry.EdgesAdded.concat {r r' r'' : Registry} {edges : List Connection}
    (h : r.EdgesAdded edges r') {fromSlot : Option SlotId} {dst : SlotId} {mode : ConnMode}
    {stateful : Bool} {policy : PausePolicy} {callocConn callocNode : Bool}
    (he : Effect r' (.connectionRegister fromSlot (some dst) mode stateful policy callocConn
      callocNode) r'') :
    r.EdgesAdded (edges ++ [⟨fromSlot, dst, mode, stateful, policy⟩]) r'' := by
  cases he with
  | connectionRegister hto hfrom gen log =>
    have hlt : ∀ c < r'.nextConn, update r'.conn r'.nextConn ⟨fromSlot, dst, mode, stateful, policy⟩ c =
        r'.conn c := fun c hc => update_of_ne hc.ne _ _
    refine ⟨by simp [h.next, Nat.add_assoc], ?_, ?_, fun c hc => ?_, ?_, h.slot⟩
    · simp [range'_concat, h.connections, h.next]
    · have hnew : (List.range' r.nextConn edges.length).map (update r'.conn r'.nextConn _) = edges :=
        (map_congr_left fun c hc => hlt c (h.next ▸ (mem_range'_1.mp hc).2)).trans h.new
      simp [range'_concat, hnew, ← h.next]
    · exact (hlt c (hc.trans_le (h.next ▸ Nat.le_add_right _ _))).trans (h.old c hc)
    · exact (relink_slots (r'.nextConn :: ·) fromSlot dst r'.slots).trans h.slots

theorem Registry.connectionRegister_status {r : Registry} {tgt : SlotId} (h : r.HasSlot tgt)
    (selfSlot : Option SlotId) (mode : ConnMode) (stateful : Bool) (policy : PausePolicy)
    (c₁ c₂ : Bool) :
    ((RegCall.connectionRegister selfSlot (some tgt) mode stateful policy c₁ c₂).apply r).2 =
      (r.edgeError selfSlot c₁ c₂).elim (.ok ()) .error := by
  have hself : (selfSlot.isSome ∧ r.slotNodeFor selfSlot = none) ↔ ∃ s ∈ selfSlot, ¬ r.HasSlot s := by
    cases selfSlot <;> simp [slotNodeFor_eq_none_iff]
  simp only [RegCall.apply, nxConnectionRegister, slotNodeFor_ne_none_iff.mpr h, if_false, hself,
    edgeError]
  split_ifs <;> rfl

/-- The walk is past some dependencies: it has stopped at none of them and has made their edges. -/
structure PastDeps (selfSlot : Option SlotId) (w : World) (done : List DepDescriptor) (w' : World) :
    Prop where
  go : ∀ pre dep, pre ++ [dep] <+: done → dep.stop w selfSlot (edgesOf w.reg selfSlot pre).length = none
  edges : w.reg.EdgesAdded (edgesOf w.reg selfSlot done) w'.reg
  calloc : ∀ j, w'.answers .calloc j = w.answers .calloc (2 * (edgesOf w.reg selfSlot done).length + j)

theorem resolveDep_edges {selfSlot : Option SlotId} {dep : DepDescriptor}
    {done : List DepDescriptor} {w w' : World} (h : PastDeps selfSlot w done w') {l : List FwOp} :
    Prog.EndsOk graphStep (resolveDep selfSlot dep) w' l
      (fun _ w'' _ => PastDeps selfSlot w (done ++ [dep]) w'') fun e w'' _ => w''.reg = w'.reg ∧
        ∃ err, dep.stop w selfSlot (edgesOf w.reg selfSlot done).length = some err ∧ e = err.code := by
  have hgo : dep.stop w selfSlot (edgesOf w.reg selfSlot done).length = none →
      ∀ pre dep', pre ++ [dep'] <+: done ++ [dep] →
        dep'.stop w selfSlot (edgesOf w.reg selfSlot pre).length = none := by
    intro hstop pre dep' hpre
    rcases prefix_concat_iff.mp hpre with heq | hdone
    · obtain ⟨rfl, hdep⟩ := append_inj' heq rfl
      rwa [(cons.inj hdep).1]
    · exact h.go pre dep' hdone
  have hlookup := Registry.nxSlotLookup_congr h.edges.slots h.edges.slot
  rw [resolveDep, endsOk_bind, endsOk_lift, ends_readRegistry, hlookup]
  cases hfind : w.reg.nxSlotLookup (some dep.name) with
  | none =>
    have hedges : edgesOf w.reg selfSlot (done ++ [dep]) = edgesOf w.reg selfSlot done := by
      simp [edgesOf, DepDescriptor.edge, hfind]
    rw [endsOk_ite, endsOk_throw, endsOk_pure]
    refine ⟨fun hreq => ⟨rfl, .enoent, by simp [DepDescriptor.stop, hfind, hreq], rfl⟩, fun hopt => ?_⟩
    exact ⟨hgo (by simp [DepDescriptor.stop, hfind, hopt]), hedges ▸ h.edges, hedges ▸ h.calloc⟩
  | some tgt =>
    have hedges : edgesOf w.reg selfSlot (done ++ [dep]) =
        edgesOf w.reg selfSlot done ++ [⟨selfSlot, tgt, dep.mode, dep.stateful, dep.policy⟩] := by
      simp [edgesOf, DepDescriptor.edge, hfind]
    have hhas : ∀ s, w'.reg.HasSlot s ↔ w.reg.HasSlot s := fun s => by
      simp only [Registry.HasSlot, h.edges.slots]
    have htgt : w'.reg.HasSlot tgt := by
      obtain ⟨n, hn, rfl⟩ := Option.map_eq_some_iff.mp hfind
      exact (hhas _).mpr (Registry.slotNodeFind_some hn).1
    dsimp only
    rw [endsOk_bind, endsOk_lift, ends_calloc, endsOk_bind, endsOk_lift, ends_calloc,
      endsOk_orReturn, ends_regCall]
    -- the two answers are those that the edges made so far have left
    have hstatus := Registry.connectionRegister_status htgt selfSlot dep.mode dep.stateful dep.policy
      (w'.answers .calloc 0) (w'.answers .calloc 1)
    have hstop : dep.stop w selfSlot (edgesOf w.reg selfSlot done).length =
        w'.reg.edgeError selfSlot (w'.answers .calloc 0) (w'.answers .calloc 1) := by
      simp [DepDescriptor.stop, hfind, Registry.edgeError, hhas, h.calloc]
    rw [← hstop] at hstatus
    cases herr : dep.stop w selfSlot (edgesOf w.reg selfSlot done).length with
    | none =>
      rw [herr] at hstatus
      refine ⟨fun _ => ⟨hgo herr, hedges ▸ h.edges.concat (RegCall.effect_of_ok hstatus),
        fun j => ?_⟩, fun hne => ?_⟩
      · simp only [hedges, Answers.after, update_self, h.calloc, length_append, length_singleton]
        congr 1
        omega
      · exact absurd (congrArg Status.code hstatus) hne
    | some e =>
      rw [herr] at hstatus
      refine ⟨fun hok => ?_,
        fun _ => ⟨RegCall.apply_error hstatus, e, rfl, congrArg Status.code hstatus⟩⟩
      exact absurd ((congrArg Status.code hstatus).symm.trans hok) (Err.code_ne_nxOk e)

/-- **What `nx_resolve_deps` leaves.** It makes one connection to each slot that its dependencies
find, up to the dependency at which it stops, if there is one. Those that it has made stay. -/
theorem resolveDeps_edges (d : ComponentDescriptor) (selfSlot : Option SlotId) (w : World) :
    let result := Prog.run graphStep (nxResolveDeps d selfSlot).run w
    ∃ done rest, d.deps = done ++ rest ∧
      (∀ pre dep, pre ++ [dep] <+: done → dep.stop w selfSlot
        (edgesOf w.reg selfSlot pre).length = none) ∧
      w.reg.EdgesAdded (edgesOf w.reg selfSlot done) result.1.reg ∧
      ((d.stateSize = 0 ∧ done = [] ∧ result.2 = .error Err.einval.code) ∨
        (d.stateSize ≠ 0 ∧ rest = [] ∧ result.2 = .ok ()) ∨
        (d.stateSize ≠ 0 ∧ ∃ dep err, rest.head? = some dep ∧
          dep.stop w selfSlot (edgesOf w.reg selfSlot done).length = some err ∧
          result.2 = .error err.code)) := by
  intro result
  have hstart : PastDeps selfSlot w [] w :=
    ⟨fun pre dep hpre =>
      by simp at hpre, ⟨rfl, rfl, rfl, fun _ _ => rfl, rfl, rfl⟩, fun j => by simp [edgesOf]⟩
  by_cases hstate : d.stateSize = 0
  · have hresult : result = (w, .error Err.einval.code) := by
      simp only [result, nxResolveDeps, if_pos hstate]
      rfl
    exact ⟨[], d.deps, rfl, hstart.go, hresult ▸ hstart.edges,
      .inl ⟨hstate, rfl, congrArg Prod.snd hresult⟩⟩
  have hends : Prog.EndsOk graphStep (nxResolveDeps d selfSlot) w []
    (fun _ w' _ => PastDeps selfSlot w d.deps w')
      fun e w' _ => ∃ done dep rest wᵢ err, d.deps = done ++ dep :: rest ∧ PastDeps selfSlot w done wᵢ ∧
        w'.reg = wᵢ.reg ∧ dep.stop w selfSlot (edgesOf w.reg selfSlot done).length = some err ∧
          e = err.code := by
    rw [nxResolveDeps, if_neg hstate]
    refine endsOk_foldlM (fun done _ w' _ => PastDeps selfSlot w done w') d.deps
      (fun done dep rest heq _ w' l h => ?_) hstart
    exact (resolveDep_edges h).mono (fun _ _ _ hok => hok)
      fun e _ _ ⟨hsame, err, hstop, hcode⟩ => ⟨done, dep, rest, w', err, heq, h, hsame, hstop, hcode⟩
  unfold Prog.EndsOk Prog.Ends at hends
  cases hres : result.2 with
  | ok u =>
    rw [hres] at hends
    exact ⟨d.deps, [], (append_nil _).symm, hends.go, hends.edges, .inr (.inl ⟨hstate, rfl, rfl⟩)⟩
  | error e =>
    rw [hres] at hends
    obtain ⟨done, dep, rest, wᵢ, err, heq, hpast, hsame, hstop, rfl⟩ := hends
    exact ⟨done, dep :: rest, heq, hpast.go, hsame ▸ hpast.edges,
      .inr (.inr ⟨hstate, dep, err, rfl, hstop, rfl⟩)⟩

/-- A file system over a block device and a cache. -/
def fsDescriptor : ComponentDescriptor :=
  { name := "fs", deps := [{ name := "block" }, { name := "cache" }] }

/-- The slots of the two, of which only the first is registered. -/
def blockOnly : Registry :=
  ((bootRegistry (fun s => { name := some (if s = 0 then "block" else "cache") })
    fun _ => {}).nxSlotRegister (some 0) true).1

theorem resolveDeps_retry :
    let failed := Prog.run graphStep (nxResolveDeps fsDescriptor none).run ⟨blockOnly, agreeable⟩
    let retried := Prog.run graphStep (nxResolveDeps fsDescriptor none).run
      { failed.1 with reg := (failed.1.reg.nxSlotRegister (some 1) true).1 }
    failed.2 = .error Err.enoent.code ∧ failed.1.reg.connections = [0] ∧ retried.2 = .ok () ∧
      (retried.1.reg.connections.map fun c => (retried.1.reg.conn c).toSlot) = [1, 0, 0] := by
  decide

/-! ### Slots and components by their names -/

variable {r : Registry}

/-- A slot that is looked up is the one that has the name. -/
theorem Registry.nxSlotLookup_eq_some_iff
    (h : ∀ s t, r.HasSlot s → r.HasSlot t → (r.slot s).name ≠ none →
      (r.slot s).name = (r.slot t).name → s = t)
    {name : String} {s : SlotId} :
    r.nxSlotLookup (some name) = some s ↔ r.HasSlot s ∧ (r.slot s).name = some name := by
  rw [Registry.nxSlotLookup, Option.map_eq_some_iff]
  constructor
  · rintro ⟨n, hn, rfl⟩
    exact Registry.slotNodeFind_some hn
  · rintro ⟨hs, hname⟩
    cases hfind : r.slotNodeFind (some name) with
    | none =>
      obtain ⟨n, hn, rfl⟩ := mem_map.mp hs
      exact absurd (decide_eq_true ⟨by simp [hname], hname⟩) (find?_eq_none.mp hfind n hn)
    | some m =>
      obtain ⟨hm, hm'⟩ := Registry.slotNodeFind_some hfind
      exact ⟨m, rfl, h _ _ hm hs (by simp [hm']) (hm'.trans hname.symm)⟩

namespace Composition

variable (k : Composition)

/-- What the tables have to satisfy: slots have different names, and so have components; a component
has state, and at most one slot names it. -/
structure Ok : Prop where
  slots : (k.bootSlots.map (·.name)).Nodup
  components : (k.components.map (·.name)).Nodup
  state : ∀ d ∈ k.components, 0 < d.stateSize
  one : ∀ d ∈ k.components, ∀ s t : Fin k.bootSlots.length, (k.bootSlots.get s).implName = some d.name →
    (k.bootSlots.get t).implName = some d.name → s = t

/-- A slot of the table has the name, and the component is the one it names. -/
def Provides (name : String) (i : Fin k.size) : Prop :=
  ∃ b ∈ k.bootSlots, b.name = name ∧ b.implName = some (k.desc i).name

instance (name : String) (i : Fin k.size) : Decidable (k.Provides name i) :=
  inferInstanceAs (Decidable (∃ b ∈ k.bootSlots, _))

variable {k}

theorem Ok.desc_inj (h : k.Ok) {i j : Fin k.size} (hij : (k.desc i).name = (k.desc j).name) : i = j := by
  have hinj := nodup_iff_injective_get.mp h.components
  have := @hinj (i.cast (length_map _).symm) (j.cast (length_map _).symm) (by simpa [desc] using hij)
  simpa using this

theorem Ok.slot_inj (h : k.Ok) {s t : Fin k.bootSlots.length}
    (hst : (k.bootSlots.get s).name = (k.bootSlots.get t).name) : s = t := by
  have hinj := nodup_iff_injective_get.mp h.slots
  have := @hinj (s.cast (length_map _).symm) (t.cast (length_map _).symm) (by simpa using hst)
  simpa using this

/-- The slot of a component is the one that names it. -/
theorem Ok.findSlotFor_eq_some_iff (h : k.Ok) (i : Fin k.size) {s : SlotId} :
    k.findSlotFor (k.desc i) = some s ↔
      ∃ hs : s < k.bootSlots.length, (k.bootSlots.get ⟨s, hs⟩).implName = some (k.desc i).name := by
  rw [findSlotFor, findIdx?_eq_some_iff_getElem]
  constructor
  · rintro ⟨hs, himpl, -⟩
    exact ⟨hs, of_decide_eq_true himpl⟩
  · rintro ⟨hs, himpl⟩
    refine ⟨hs, decide_eq_true himpl, fun t ht => ?_⟩
    rw [Bool.not_eq_true, decide_eq_false_iff_not]
    intro himpl'
    have heq := h.one _ (get_mem _ i) ⟨s, hs⟩ ⟨t, ht.trans hs⟩ himpl himpl'
    exact Nat.ne_of_gt ht (congrArg Fin.val heq)

theorem boot_slot (s : Fin k.bootSlots.length) : k.boot.slot s =
    { name := some (k.bootSlots.get s).name, mutability := (k.bootSlots.get s).mutability } := by
  simp [boot, bootRegistry]

theorem boot_comp (i : Fin k.size) : k.boot.comp i =
    { manifestId := some (k.desc i).name, instanceId := some "0", ops := (k.desc i).ops } := by
  simp [boot, bootRegistry, desc]

end Composition

/-! ### Registering the slots -/

variable {k : Composition}

/-- The first `m` slots are registered. -/
structure SlotsUp (k : Composition) (m : ℕ) (r : Registry) : Prop where
  hasSlot : ∀ s, r.HasSlot s ↔ s < m
  slot : r.slot = k.boot.slot
  comp : r.comp = k.boot.comp
  components : r.components = []

variable {w : World} {l : List FwOp}

theorem endsOk_bootRegisterSlot (hk : k.Ok) (s : Fin k.bootSlots.length) (h : SlotsUp k s w.reg)
    (ha : a.Later w.answers) :
    Prog.EndsOk graphStep (bootRegisterSlot s) w l
      (fun _ w _ => SlotsUp k (s + 1) w.reg ∧ a.Later w.answers) fun _ _ _ => ¬ Obliging a := by
  rw [bootRegisterSlot, endsOk_bind, endsOk_lift, ends_calloc, endsOk_bind, endsOk_lift,
    ends_regCall, endsOk_ite, endsOk_throw, endsOk_pure]
  dsimp only
  have hname : (w.reg.slot s).name ≠ none := by simp [h.slot, k.boot_slot]
  have hnew : w.reg.slotNodeFind (w.reg.slot s).name = none := by
    refine find?_eq_none.mpr fun n hn hsame => ?_
    have hlt : n.slot < s := (h.hasSlot _).mp (mem_map_of_mem hn)
    have hsame := (of_decide_eq_true hsame).2
    have hn' := k.boot_slot ⟨n.slot, hlt.trans s.isLt⟩
    simp only at hn'
    rw [h.slot, hn', k.boot_slot] at hsame
    exact Nat.ne_of_lt hlt (congrArg Fin.val (hk.slot_inj (Option.some.inj hsame)))
  cases hcalloc : w.answers .calloc 0 with
  | false =>
    have hfail : RegCall.apply w.reg (.slotRegister (some (s : ℕ)) false) = (w.reg, .error .enomem) := by
      simp [RegCall.apply, Registry.nxSlotRegister, hname, hnew]
    refine ⟨fun _ => not_obliging_of_calloc ha hcalloc, fun hno => absurd ⟨?_, ?_⟩ hno⟩
    · simp [hfail, Status.code]
    · rw [hfail]
      exact (by decide : Err.enomem.code ≠ Err.eexist.code)
  | true =>
    have hok : (RegCall.apply w.reg (.slotRegister (some (s : ℕ)) true)).2 = .ok () := by
      simp [RegCall.apply, Registry.nxSlotRegister, hname, hnew]
    refine ⟨fun hno => absurd (by rw [hok]; rfl) hno.1, fun _ => ⟨?_, ha.after _⟩⟩
    have he := RegCall.effect_of_ok hok
    generalize RegCall.next w.reg _ = r' at he
    cases he with
    | slotRegister _ _ gen log =>
      refine ⟨fun t => ?_, ?_, h.comp, h.components⟩
      · change t ∈ (_ :: w.reg.slots).map SlotNode.slot ↔ _
        rw [map_cons, mem_cons]
        have := h.hasSlot t
        rw [Registry.HasSlot, Registry.nxGraphForeachSlot] at this
        rw [this, Nat.lt_succ_iff_lt_or_eq]
        exact or_comm
      · dsimp only
        rw [h.slot, k.boot_slot]
        refine update_eq_self_iff.mpr ?_
        rw [k.boot_slot]

/-! ### Registering the components -/

/-- The components of the list are registered, and behind their slots. -/
structure CompsUp (k : Composition) (up : List (Fin k.size)) (r : Registry) : Prop where
  hasSlot : ∀ s, r.HasSlot s ↔ s < k.bootSlots.length
  hasComp : ∀ c, r.HasComp c ↔ ∃ i ∈ up, c = (i : ℕ)
  name : ∀ s, (r.slot s).name = (k.boot.slot s).name
  active : ∀ s c, (r.slot s).active = some c ↔ ∃ i ∈ up, c = (i : ℕ) ∧ k.findSlotFor (k.desc i) = some s
  comp : r.comp = k.boot.comp

theorem SlotsUp.compsUp (h : SlotsUp k k.bootSlots.length r) : CompsUp k [] r where
  hasSlot := h.hasSlot
  hasComp c := by simp [Registry.HasComp, Registry.nxGraphForeachComponent, h.components]
  name s := by rw [h.slot]
  active s c := by
    rw [h.slot]
    cases hb : k.bootSlots[s]? with
    | none | some b => simp [Composition.boot, bootRegistry, hb]
  comp := h.comp

variable {up : List (Fin k.size)} {i : Fin k.size}

theorem CompsUp.componentNodeFind (hk : k.Ok) (h : CompsUp k up r) (hi : i ∉ up) :
    r.componentNodeFind (r.comp i).manifestId (r.comp i).instanceId = none := by
  rw [Registry.componentNodeFind]
  split_ifs
  · rfl
  · refine find?_eq_none.mpr fun c hc hsame => ?_
    obtain ⟨j, hj, rfl⟩ := (h.hasComp c).mp hc
    have hsame := (of_decide_eq_true hsame).2.1
    rw [h.comp, k.boot_comp, k.boot_comp] at hsame
    exact hi (hk.desc_inj (Option.some.inj hsame) ▸ hj)

variable {r' : Registry}

/-- A component that is registered goes to the list. -/
theorem CompsUp.register (h : CompsUp k up r) {calloc : Bool}
    (he : Effect r (.componentRegister (some (i : ℕ)) calloc) r') :
    (∀ s, r'.HasSlot s ↔ s < k.bootSlots.length) ∧ (∀ c, r'.HasComp c ↔ ∃ j ∈ up ++ [i], c = (j : ℕ)) ∧
      r'.slot = r.slot ∧ r'.comp = k.boot.comp := by
  cases he with
  | componentRegister _ _ gen log =>
    refine ⟨h.hasSlot, fun c => ?_, rfl, h.comp⟩
    have hc := h.hasComp c
    rw [Registry.HasComp, Registry.nxGraphForeachComponent] at hc
    change c ∈ (i : ℕ) :: r.components ↔ _
    rw [mem_cons, hc]
    simp only [mem_append, mem_singleton, or_and_right, exists_or, exists_eq_left]
    exact or_comm

/-- A component that the slot does not name is not behind it. -/
theorem exists_bound_append {s : SlotId} {c : CompId} (hne : k.findSlotFor (k.desc i) ≠ some s) :
    (∃ j ∈ up ++ [i], c = (j : ℕ) ∧ k.findSlotFor (k.desc j) = some s) ↔
      ∃ j ∈ up, c = (j : ℕ) ∧ k.findSlotFor (k.desc j) = some s := by
  constructor
  · rintro ⟨j, hj, hc, hs⟩
    rcases mem_append.mp hj with hj | hj
    · exact ⟨j, hj, hc, hs⟩
    · exact absurd (mem_singleton.mp hj ▸ hs) hne
  · rintro ⟨j, hj, hc⟩
    exact ⟨j, mem_append_left _ hj, hc⟩

theorem endsOk_bootRegisterComponent (hk : k.Ok) (hi : i ∉ up) (h : CompsUp k up w.reg)
    (ha : a.Later w.answers) : Prog.EndsOk graphStep (bootRegisterComponent k i) w l
      (fun _ w _ => CompsUp k (up ++ [i]) w.reg ∧ a.Later w.answers) fun _ _ _ => ¬ Obliging a := by
  have hstate : 0 < (k.desc i).stateSize := hk.state _ (get_mem _ i)
  rw [bootRegisterComponent, endsOk_bind]
  refine endsOk_callocOrReturn ?_ (not_obliging_of_calloc ha)
  have ha := ha.after .calloc
  rw [if_pos hstate, endsOk_bind]
  refine endsOk_callocOrReturn ?_ (not_obliging_of_calloc ha)
  have ha := ha.after .calloc
  rw [endsOk_bind, endsOk_lift, ends_calloc, endsOk_bind]
  have hname : (w.reg.comp i).manifestId ≠ none ∧ (w.reg.comp i).instanceId ≠ none := by
    rw [h.comp, k.boot_comp]
    simp
  refine endsOk_regCall (fun r' he => ?_) fun e he => ?_
  swap
  · refine not_obliging_of_calloc ha ?_
    by_contra hcalloc
    rw [Bool.not_eq_false] at hcalloc
    dsimp only at he
    rw [hcalloc, RegCall.apply, Registry.nxComponentRegister, if_neg (by simpa using hname),
      if_neg (by simp [h.componentNodeFind hk hi])] at he
    cases he
  obtain ⟨hslots, hcomps, hslot, hcomp⟩ := h.register he
  have ha := ha.after .calloc
  cases hfind : k.findSlotFor (k.desc i) with
  | none =>
    refine (endsOk_pure ()).mpr
      ⟨⟨hslots, hcomps, fun s => by rw [hslot, h.name], fun s c => ?_, hcomp⟩, ha⟩
    rw [hslot, h.active, exists_bound_append (by simp [hfind])]
  | some s =>
    obtain ⟨hs, himpl⟩ := (hk.findSlotFor_eq_some_iff i).mp hfind
    have hreg : r'.HasSlot s := (hslots s).mpr hs
    have hci : r'.HasComp i := (hcomps i).mpr ⟨i, by simp, rfl⟩
    refine endsOk_regCall (fun r'' he' => ?_) fun e he' => ?_
    · cases he' with
      | slotSwap _ _ gen log =>
        refine ⟨⟨hslots, hcomps, fun t => ?_, fun t c => ?_, hcomp⟩, ha⟩
        · dsimp only
          by_cases hts : t = s
          · subst hts
            rw [update_self]
            dsimp only
            rw [hslot, h.name]
          · rw [update_of_ne hts, hslot, h.name]
        · dsimp only
          by_cases hts : t = s
          · subst hts
            rw [update_self]
            constructor
            · rintro ⟨rfl⟩
              exact ⟨i, by simp, rfl, hfind⟩
            · rintro ⟨j, -, rfl, hj⟩
              obtain ⟨_, himpl'⟩ := (hk.findSlotFor_eq_some_iff j).mp hj
              rw [hk.desc_inj (Option.some.inj (himpl.symm.trans himpl'))]
          · rw [update_of_ne hts, hslot, h.active, exists_bound_append
              (by simpa [hfind] using Ne.symm hts)]
    · obtain ⟨sn, hsn⟩ := Option.ne_none_iff_exists'.mp (Registry.slotNodeFor_ne_none_iff.mpr hreg)
      have hcn := mt Registry.componentNodeFor_eq_none_iff.mp (not_not.mpr hci)
      simp [RegCall.apply, Registry.nxSlotSwap, hsn, hcn] at he'

/-! ### The graph -/

/-- All slots and components are registered, and every component is behind the slot that names
it. -/
structure Wired (k : Composition) (r : Registry) : Prop where
  hasSlot : ∀ s, r.HasSlot s ↔ s < k.bootSlots.length
  hasComp : ∀ c, r.HasComp c ↔ c < k.size
  name : ∀ s, (r.slot s).name = (k.boot.slot s).name
  active : ∀ s c, (r.slot s).active = some c ↔ ∃ i : Fin k.size, c = (i : ℕ) ∧
    k.findSlotFor (k.desc i) = some s
  ops : ∀ c, (r.comp c).ops = (k.boot.comp c).ops

theorem CompsUp.wired (h : CompsUp k (List.finRange k.size) r) : Wired k r where
  hasSlot := h.hasSlot
  hasComp c := by
    rw [h.hasComp]
    exact ⟨fun ⟨i, _, hi⟩ => hi ▸ i.isLt, fun hc => ⟨⟨c, hc⟩, mem_finRange _, rfl⟩⟩
  name := h.name
  active s c := by simpa using h.active s c
  ops c := by rw [h.comp]

/-- With no components there is nothing behind a slot. -/
theorem SlotsUp.wired (h : SlotsUp k k.bootSlots.length r) (hk : k.size = 0) : Wired k r :=
  CompsUp.wired (by
    have hnil : List.finRange k.size = [] := by simp [← length_eq_zero_iff, hk]
    rw [hnil]
    exact h.compsUp)

theorem endsOk_bootRegisterSlots (hk : k.Ok) (a : Answers) (l : List FwOp) :
    Prog.EndsOk graphStep ((List.range k.bootSlots.length).foldlM (fun _ s => bootRegisterSlot s)
      ()) ⟨k.boot, a⟩ l
      (fun _ w _ => SlotsUp k k.bootSlots.length w.reg ∧ a.Later w.answers) fun _ _ _ =>
      ¬ Obliging a := by
  have hstart : SlotsUp k 0 k.boot :=
    ⟨fun s => by simp [Registry.HasSlot, Registry.nxGraphForeachSlot, Composition.boot, bootRegistry], rfl, rfl, rfl⟩
  refine (endsOk_foldlM (fun pre _ (w : World) _ => SlotsUp k pre.length w.reg ∧ a.Later w.answers) _
    (fun pre s post heq _ w l hw => ?_) ⟨hstart, .refl a⟩).mono (fun _ w _ hw => ?_) fun _ _ _ h => h
  · -- The slot of the turn is the first that is not registered.
    have hs : s = pre.length := by
      have hlt : pre.length < k.bootSlots.length := by
        have := congrArg List.length heq
        rw [length_range, length_append, length_cons] at this
        omega
      have := congrArg (·[pre.length]?) heq
      simpa [hlt] using this.symm
    have hlt : s < k.bootSlots.length := mem_range.mp (heq ▸ by simp)
    have := endsOk_bootRegisterSlot hk (l := l) ⟨s, hlt⟩ (hs ▸ hw.1) hw.2
    simpa [hs] using this
  · rwa [length_range] at hw

theorem endsOk_bootRegisterComponents (hk : k.Ok) (h : SlotsUp k k.bootSlots.length w.reg)
    (ha : a.Later w.answers) :
    Prog.EndsOk graphStep ((List.finRange k.size).foldlM (fun _ i => bootRegisterComponent k i) ()) w l
      (fun _ w _ => CompsUp k (List.finRange k.size) w.reg ∧ a.Later w.answers) fun _ _ _ =>
      ¬ Obliging a := by
  refine endsOk_foldlM (fun pre _ (w : World) _ => CompsUp k pre w.reg ∧ a.Later w.answers) _
    (fun pre i post heq _ w l hw => ?_) ⟨h.compsUp, ha⟩
  have hnodup : (pre ++ i :: post).Nodup := heq ▸ nodup_finRange k.size
  have hi : i ∉ pre := fun hmem => (nodup_append.mp hnodup).2.2 i hmem i (by simp) rfl
  exact endsOk_bootRegisterComponent hk hi hw.1 hw.2

/-- **The first two steps make the graph, if there is memory.** -/
theorem endsOk_bootWire (hk : k.Ok) (a : Answers) (l : List FwOp) :
    Prog.EndsOk graphStep (bootWire k) ⟨k.boot, a⟩ l
      (fun _ w _ => Wired k w.reg ∧ w.reg.comp = k.boot.comp ∧ a.Later w.answers) fun _ _ _ =>
      ¬ Obliging a := by
  rw [bootWire, endsOk_bind]
  refine (endsOk_bootRegisterSlots hk a l).mono (fun _ w l hw => ?_) fun _ _ _ h => h
  split_ifs with hsize
  · exact (endsOk_pure ()).mpr ⟨hw.1.wired hsize, hw.1.comp, hw.2⟩
  · rw [endsOk_bind]
    refine endsOk_callocOrReturn ?_ (not_obliging_of_calloc hw.2)
    rw [endsOk_bind]
    refine (endsOk_bootRegisterComponents hk (w := ⟨w.reg, w.answers.after .calloc⟩) hw.1
      (hw.2.after .calloc)).mono (fun _ w l hw => ?_) fun _ _ _ h => h
    exact endsOk_callocOrReturn ⟨hw.1.wired, hw.1.comp, hw.2.after .calloc⟩ (not_obliging_of_calloc hw.2)

/-- What keeps the slots, what is behind them, and the lists keeps the graph. -/
theorem Wired.congr (h : Wired k r) (hslots : ∀ s, r'.HasSlot s ↔ r.HasSlot s)
    (hcomps : ∀ c, r'.HasComp c ↔ r.HasComp c) (hslot : r'.slot = r.slot)
    (hops : ∀ c, (r'.comp c).ops = (r.comp c).ops) : Wired k r' where
  hasSlot s := (hslots s).trans (h.hasSlot s)
  hasComp c := (hcomps c).trans (h.hasComp c)
  name s := by rw [hslot, h.name]
  active s c := by rw [hslot, h.active]
  ops c := (hops c).trans (h.ops c)

/-- Setting the state of a component keeps the graph. -/
theorem Wired.setState (h : Wired k r) (c : CompId) (st : LifecycleState) : Wired k (r.setState c st) :=
  h.congr (r.hasSlot_setState c st) (r.hasComp_setState c st) (r.setState_slot c st) fun c' => by
    by_cases hc : r.HasComp c
    · rw [r.setState_comp c st hc]
      by_cases hcc : c' = c
      · subst hcc
        rw [update_self]
      · rw [update_of_ne hcc]
    · rw [r.setState_of_not_hasComp c st hc]

/-- A connection between slots keeps the graph. -/
theorem Wired.connectionRegister (h : Wired k r) {fromSlot toSlot : Option SlotId} {mode : ConnMode}
    {stateful : Bool} {policy : PausePolicy} {callocConn callocNode : Bool}
    (he : Effect r (.connectionRegister fromSlot toSlot mode stateful policy callocConn callocNode) r') :
    Wired k r' ∧ r'.comp = r.comp := by
  cases he with
  | connectionRegister hto hfrom gen log =>
    refine ⟨h.congr (fun s => ?_) (fun _ => Iff.rfl) rfl fun _ => rfl, rfl⟩
    rw [Registry.HasSlot, Registry.nxGraphForeachSlot, relink_slots (r.nextConn :: ·)]
    rfl

section Lookup

variable {r : Registry} (h : Wired k r) (hk : k.Ok)

include h hk

theorem Wired.nxSlotLookup_eq_some_iff {name : String} {s : SlotId} :
    r.nxSlotLookup (some name) = some s ↔
      ∃ hs : s < k.bootSlots.length, (k.bootSlots.get ⟨s, hs⟩).name = name := by
  have hname : ∀ s : Fin k.bootSlots.length, (r.slot s).name = some (k.bootSlots.get s).name :=
      fun s => by
    rw [h.name, k.boot_slot]
  rw [Registry.nxSlotLookup_eq_some_iff, h.hasSlot]
  · constructor
    · rintro ⟨hs, hn⟩
      exact ⟨hs, Option.some.inj ((hname ⟨s, hs⟩).symm.trans hn)⟩
    · rintro ⟨hs, hn⟩
      exact ⟨hs, (hname ⟨s, hs⟩).trans (congrArg some hn)⟩
  · intro s t hs ht _ hst
    have hs := (h.hasSlot s).mp hs
    have ht := (h.hasSlot t).mp ht
    have hst := (hname ⟨s, hs⟩).symm.trans (hst.trans (hname ⟨t, ht⟩))
    exact congrArg Fin.val (hk.slot_inj (Option.some.inj hst))

/-- **What a dependency finds is the component that the tables say.** -/
theorem Wired.active_lookup_eq_some_iff {name : String} {c : CompId} :
    ((r.nxSlotLookup (some name)).bind fun s => (r.slot s).active) = some c ↔
      ∃ i : Fin k.size, c = (i : ℕ) ∧ k.Provides name i := by
  rw [Option.bind_eq_some_iff]
  constructor
  · rintro ⟨s, hs, hc⟩
    obtain ⟨hlt, hname⟩ := (h.nxSlotLookup_eq_some_iff hk).mp hs
    obtain ⟨i, hi, hfind⟩ := (h.active s c).mp hc
    obtain ⟨_, himpl⟩ := (hk.findSlotFor_eq_some_iff i).mp hfind
    exact ⟨i, hi, _, get_mem _ ⟨s, hlt⟩, hname, himpl⟩
  · rintro ⟨i, hi, b, hb, hname, himpl⟩
    obtain ⟨s, rfl⟩ := mem_iff_get.mp hb
    exact ⟨s, (h.nxSlotLookup_eq_some_iff hk).mpr ⟨s.isLt, hname⟩,
      (h.active s c).mpr ⟨i, hi, (hk.findSlotFor_eq_some_iff i).mpr ⟨s.isLt, himpl⟩⟩⟩

end Lookup

end Nonux.Framework
