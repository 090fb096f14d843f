import Nonux.Framework.HandleHistory
import Nonux.Syscall.ReferenceKinds

/-!
# Closed handles and the syscalls that bypass `handle.c`

A close advances the generation of the entry, and as long as the generation does not
fall the closed handle value names nothing (`Dead`). Allocation and close never let it
fall (`Moves.generation_le`), but `sys_dup3` and `F_DUPFD` store a generation of their
own: the one in `newfd`, and 0. `closed_handle_not_reused` says that a closed value is
neither returned nor resolved again in a run in which

* `F_DUPFD` takes an entry whose generation is still 0,
* `sys_dup3` sets no entry's generation back by more than the one step that reinstates
  `newfd` itself, and
* what is allocated has a generation that fits in a handle.

In the run `dupfd_returns_closed_handle` one is returned again.
-/

namespace Nonux.Syscall

open Nonux.Components Nonux.Framework Nonux.Lib Function

/-- The entry of the handle has moved on to a later generation. -/
def Dead (v : Handle) (t : Table) : Prop :=
  ∀ i, decodeIndex v = some i → (decodeGeneration v).toNat < (t.entries i).generation.toNat

variable {v : Handle} {t : Table}

theorem Dead.not_resolves (h : Dead v t) : ¬ Resolves t v := by
  rintro ⟨i, hi⟩
  obtain ⟨hidx, -, hgen⟩ := resolve_eq_ok_iff.mp hi
  have := h i hidx
  rw [hgen] at this
  exact lt_irrefl _ this

theorem Dead.of_moves {t' : Table} (h : Dead v t) (hm : Moves False t t') : Dead v t' :=
  fun i hi => (h i hi).trans_le (hm.generation_le i)

variable {i : EntryIdx}

/-- The handle of an entry whose generation fits is not a dead one. -/
theorem Dead.encode_ne (h : Dead v t) (hfit : Fits t i) :
    encodeHandle (t.entries i).generation i ≠ v := by
  rintro rfl
  have := h i (decodeIndex_encodeHandle _ _)
  rw [← decodeGeneration_encodeHandle_iff.mpr hfit] at this
  exact lt_irrefl _ this

/-! ### The condition on a step -/

/-- The condition on a syscall of the process. -/
def KeepsDead (t : Table) : LocalCall → Prop
  | .open _ _ _ _ => ∀ i, t.firstFree = some i → Fits t i
  | .channelCreate _ _ _ | .pipe _ _ =>
    ∀ i, t.firstFree = some i → Fits t i ∧ ∀ j, freeBut t i = some j → Fits t j
  | .fcntl fd cmd arg =>
    cmd = 0 ∨ cmd = 1030 → Resolves t fd → ∀ i, fcntlFree t arg = some i → (t.entries i).generation = 0
  | .dup3 oldfd newfd => oldfd ≠ newfd → Resolves t oldfd → ∀ i gen, dup3Target newfd = some (i, gen) →
    -- Handle 0 stands for the entry 2, and so does not reinstate itself.
    (t.entries i).generation.toNat ≤ gen.toNat + if newfd = 0 then 0 else 1
  | .handleClose _ | .getdents64 _ _ _ _ => True

/-- The condition on a step, for the handles of the process `pk`. -/
def ReuseOk (pk : ProcKey) (k : Kernel) : KOp → Prop
  | .call q c => q = pk → ∀ p, k.running pk = some p → KeepsDead p.handles c
  | .destroy q => q ≠ pk
  | .fork _ _ _ _ | .exit _ _ | .create _ _ _ => True

/-! ### Syscalls -/

theorem createPair_handles (o : Objects) (rights0 rights1 : UInt32) (copyOut : Except Err Unit)
    (calloc : Bool) (hdead : Dead v t)
    (hfit : ∀ i, t.firstFree = some i → Fits t i ∧ ∀ j, freeBut t i = some j → Fits t j) :
    v ∉ (createPair t o rights0 rights1 copyOut calloc).2.2.handles := by
  unfold createPair
  split
  · simp [Ret.err]
  · dsimp only
    split
    · simp [Ret.err]
    · next t₁ h0 hal0 =>
      split
      · simp [Ret.err]
      · next t₂ h1 hal1 =>
        split
        · simp [Ret.err]
        · have hle : Moves False t t₁ := moves_alloc hal0
          obtain ⟨i, hi, rfl, ht₁⟩ := nxHandleAlloc_channel_ok hal0
          obtain ⟨j, hj, rfl, -⟩ := nxHandleAlloc_channel_ok hal1
          have hnext : freeBut t i = some j := by
            rw [← hj, ht₁]
            exact (firstFree_occupy (by simp [HandleEntry.Live, channelEntry])).symm
          -- The second entry is as it was before the first was filled.
          have hji : j ≠ i := by
            have := List.find?_some hnext
            simp only [decide_eq_true_eq] at this
            exact this.1
          have hfit1 : Fits t₁ j := by
            have := (hfit i hi).2 j hnext
            simpa [Fits, ht₁, HandleTable.occupy, hji] using this
          have hne0 := hdead.encode_ne (hfit i hi).1
          have hne1 := (hdead.of_moves hle).encode_ne hfit1
          simp [hne0.symm, hne1.symm]

theorem OpenedIn.handles {r : Table × Objects × Ret} (h : OpenedIn t r) (hdead : Dead v t)
    (hfit : ∀ i, t.firstFree = some i → Fits t i) : v ∉ r.2.2.handles := by
  rcases h with ⟨-, heq⟩ | ⟨i, e, -, hi, -, -, -, heq⟩
  · simp [heq]
  · simpa [heq] using (hdead.encode_ne (hfit i hi)).symm

theorem dup3Target_some {newfd : Handle} {gen : UInt32} (h : dup3Target newfd = some (i, gen)) :
    (newfd = 0 ∧ gen = 0) ∨ (newfd ≠ 0 ∧ newfd = encodeHandle gen i) := by
  unfold dup3Target at h
  split_ifs at h with hzero
  · cases h
    exact .inl ⟨hzero, rfl⟩
  · obtain ⟨j, hj, heq⟩ := Option.map_eq_some_iff.mp h
    cases heq
    exact .inr ⟨hzero, (encodeHandle_decode hj).symm⟩

/-- `sys_dup3` onto another value leaves a dead handle dead. -/
theorem sysDup3_dead {oldfd newfd : Handle} (o : Objects) (hdead : Dead v t) (hne : newfd ≠ v)
    (hkeep : KeepsDead t (.dup3 oldfd newfd)) : Dead v (sysDup3 t o oldfd newfd).1 := by
  unfold sysDup3
  split_ifs with heq
  · exact hdead
  · cases hs : resolve t oldfd with
    | error e => exact hdead
    | ok s =>
      cases htgt : dup3Target newfd with
      | none => exact hdead
      | some ig =>
        obtain ⟨i, gen⟩ := ig
        have hgen := hkeep heq ⟨s, hs⟩ i gen htgt
        intro j hj
        dsimp only
        by_cases hji : j = i
        · subst hji
          have hold := hdead j hj
          rw [update_self]
          dsimp only
          rcases dup3Target_some htgt with ⟨hzero, -⟩ | ⟨hzero, hnew⟩
          · rw [if_pos hzero] at hgen
            omega
          · rw [if_neg hzero] at hgen
            -- The one value the step back reinstates is `newfd`.
            have hneq : (decodeGeneration v).toNat ≠ gen.toNat := fun h => hne (by
              rw [hnew, ← UInt32.toNat_inj.mp h]
              exact encodeHandle_decode hj)
            omega
        · rw [update_of_ne hji]
          exact hdead j hj

/-- `F_DUPFD` into an entry that was never freed. -/
theorem fcntlDupfd_dead {fd : Handle} {arg : ℤ} (o : Objects) (hdead : Dead v t)
    (hkeep : Resolves t fd → ∀ i, fcntlFree t arg = some i → (t.entries i).generation = 0) :
    Dead v (fcntlDupfd t o fd arg).1 ∧ v ∉ (fcntlDupfd t o fd arg).2.2.handles := by
  unfold fcntlDupfd
  cases hs : resolve t fd with
  | error e => exact ⟨hdead, by simp⟩
  | ok s =>
    cases hi : fcntlFree t arg with
    | none => exact ⟨hdead, by simp⟩
    | some i =>
      have hgen := hkeep ⟨s, hs⟩ i hi
      -- The dead handle is of another entry.
      have hother : decodeIndex v ≠ some i := fun h => by
        have := hdead i h
        simp [hgen] at this
      refine ⟨fun j hj => ?_, ?_⟩
      · have hji : j ≠ i := fun h => hother (h ▸ hj)
        simpa [HandleTable.occupy, hji] using hdead j hj
      · simp only [List.mem_singleton]
        rintro rfl
        refine hother (decodeIndex_eq_some_iff.mpr ?_)
        have := i.isLt
        rw [UInt32.toNat_ofNat']
        omega

variable {ps : Procs} {p : Process}

/-- **A syscall that meets the condition neither revives a dead handle nor returns it**,
unless it is `sys_dup3` onto that very value. -/
theorem LocalCall.run_dead {o : Objects} {c : LocalCall} (hdead : Dead v p.handles)
    (hkeep : KeepsDead p.handles c) (hdup : ∀ oldfd, c ≠ .dup3 oldfd v) :
    Dead v (c.run ps p o).1 ∧ v ∉ (c.run ps p o).2.2.handles := by
  cases c with
  | channelCreate e0 e1 calloc =>
    simp only [LocalCall.run, sysChannelCreate]
    split
    · exact ⟨hdead, by simp [Ret.err]⟩
    · exact ⟨hdead.of_moves (createPair_moves _ _ _ _ _ _), createPair_handles _ _ _ _ _ hdead hkeep⟩
  | pipe fds calloc =>
    simp only [LocalCall.run, sysPipe]
    split
    · exact ⟨hdead, by simp [Ret.err]⟩
    · exact ⟨hdead.of_moves (createPair_moves _ _ _ _ _ _), createPair_handles _ _ _ _ _ hdead hkeep⟩
  | handleClose h =>
    refine ⟨hdead.of_moves (sysHandleClose_moves _ _ _), ?_⟩
    simp only [LocalCall.run, sysHandleClose]
    split
    · simp [Ret.err]
    · split <;> simp [Ret.err]
  | «open» mem path flags malloc =>
    exact ⟨hdead.of_moves (sysOpen_cases ..).1.moves, (sysOpen_cases ..).1.handles hdead hkeep⟩
  | getdents64 h buf cap malloc =>
    rw [LocalCall.run, (sysGetdents64_cases ..).1]
    refine ⟨hdead, ?_⟩
    unfold sysGetdents64
    dsimp only
    repeat' split
    all_goals simp
  | dup3 oldfd newfd =>
    have hne : newfd ≠ v := fun h => hdup oldfd (by rw [h])
    refine ⟨sysDup3_dead o hdead hne hkeep, ?_⟩
    simp only [LocalCall.run, sysDup3]
    repeat' split
    all_goals simp [Ret.err, hne.symm]
  | fcntl fd cmd arg =>
    simp only [LocalCall.run, sysFcntl]
    split
    · exact ⟨hdead, by simp⟩
    · split
      · next hcmd => exact fcntlDupfd_dead o hdead (hkeep hcmd)
      · exact ⟨hdead, by simp⟩

/-! ### Runs -/

variable {k : Kernel} {pk : ProcKey}

/-- The process is there, and the handle is dead in its table. -/
def DeadIn (pk : ProcKey) (v : Handle) (k : Kernel) : Prop :=
  ∃ p, k.procs.slot pk = some p ∧ Dead v p.handles

/-- **A step that meets the condition keeps a dead handle dead.** -/
theorem DeadIn.knext {op : KOp} (h : DeadIn pk v k) (hok : ReuseOk pk k op)
    (hdup : ∀ oldfd, op ≠ .call pk (.dup3 oldfd v)) : DeadIn pk v (knext k op) := by
  obtain ⟨p, hp, hdead⟩ := h
  have hslots := knext_slots k op
  have hother : ∀ {q t}, q ≠ pk → ∃ p, update k.procs.slot q t pk = some p ∧ Dead v p.handles :=
    fun hq => ⟨p, by rw [update_of_ne hq.symm, hp], hdead⟩
  have hnew : ∀ {i}, k.procs.slot (some i) = none → some i ≠ pk := fun hfree heq => by
    simp [← heq, hfree] at hp
  have hown : ∀ {q p' t}, k.running q = some p' → (q = pk → Dead v p'.handles → Dead v t.handles) →
      ∃ p, update k.procs.slot q (some t) pk = some p ∧ Dead v p.handles := by
    intro q p' t hrun ht
    by_cases hq : q = pk
    · subst hq
      obtain rfl : p' = p := Option.some.inj ((running_slot hrun).symm.trans hp)
      exact ⟨t, update_self .., ht rfl hdead⟩
    · exact hother hq
  unfold DeadIn
  generalize (Syscall.knext k op).procs.slot = slot at hslots
  cases hslots with
  | same => exact ⟨p, hp, hdead⟩
  | call hrun =>
    refine hown hrun fun hq hdead => ?_
    subst hq
    exact (LocalCall.run_dead hdead (hok rfl _ hrun) fun oldfd h => hdup oldfd (by rw [h])).1
  | fork hrun hck hfree hchild => exact hother (hnew hfree)
  | exit hrun =>
    refine hown hrun fun _ hdead => ?_
    dsimp only
    exact hdead.of_moves (exitHandles_moves _ _)
  | reset | destroy => exact hother hok
  | create hfree => exact hother (hnew hfree)

theorem DeadIn.run {ops : List KOp} (h : DeadIn pk v k) (hok : RunOk Syscall.knext (ReuseOk pk) k ops)
    (hdup : ∀ oldfd, KOp.call pk (.dup3 oldfd v) ∉ ops) : DeadIn pk v (runFrom Syscall.knext k ops) := by
  induction ops generalizing k with
  | nil => exact h
  | cons op ops ih =>
    refine ih (h.knext hok.1 fun oldfd heq => hdup oldfd (by simp [heq])) hok.2 fun oldfd hmem => ?_
    exact hdup oldfd (List.mem_cons_of_mem _ hmem)

/-- The close of a handle value makes it dead. -/
theorem deadIn_close {h : Handle} (hrun : k.running pk = some p)
    (hroute : routeStdin p.handles h = .ok v) (hres : resolve p.handles v = .ok i) :
    DeadIn pk v (knext k (.call pk (.handleClose h))) := by
  refine ⟨{ p with handles := p.handles.release i }, ?_, fun j hj => ?_⟩
  · simp only [knext, kstep, hrun, LocalCall.run, sysHandleClose, hroute, nxHandleClose, hres,
      Except.map, Procs.set, update_self]
  · obtain ⟨hidx, -, hgen⟩ := resolve_eq_ok_iff.mp hres
    rw [hidx, Option.some.injEq] at hj
    subst hj
    have hlt := decodeGeneration_lt v
    have hone : (1 : UInt32).toNat = 1 := rfl
    simp only [HandleTable.release, update_self, HandleEntry.closed, hgen, UInt32.toNat_add]
    omega

/-- **A handle value that a process has closed never resolves again and is never returned
to it**, in a run whose steps meet the condition and in which it does not call
`sys_dup3` with that value as `newfd`. -/
theorem closed_handle_not_reused (files : Fin 32 → Option RamfsFile) (pk : ProcKey) (pre post : List KOp)
    (h v : Handle) (p : Process) (i : EntryIdx)
    (hrun : (runFrom knext (bootKernel files) pre).running pk = some p)
    (hroute : routeStdin p.handles h = .ok v) (hres : resolve p.handles v = .ok i)
    (hok : RunOk knext (ReuseOk pk)
      (runFrom knext (bootKernel files) (pre ++ [.call pk (.handleClose h)])) post)
    (hdup : ∀ oldfd, KOp.call pk (.dup3 oldfd v) ∉ post) (mid : List KOp) (hmid : mid <+: post) :
    let k := runFrom knext (bootKernel files) (pre ++ [.call pk (.handleClose h)] ++ mid)
    (∀ p', k.procs.slot pk = some p' → ¬ Resolves p'.handles v) ∧
      ∀ c rest, mid ++ KOp.call pk c :: rest = post → v ∉ (kstep k (.call pk c)).2.handles := by
  intro k
  obtain ⟨tail, rfl⟩ := hmid
  obtain ⟨hokmid, hoktail⟩ := runOk_append.mp hok
  have hk : runFrom knext (runFrom knext (bootKernel files) (pre ++ [.call pk (.handleClose h)]))
      mid = k :=
    (runFrom_append ..).symm
  have hclosed : DeadIn pk v
      (runFrom knext (bootKernel files) (pre ++ [.call pk (.handleClose h)])) := by
    rw [runFrom_append]
    exact deadIn_close hrun hroute hres
  have hdead : DeadIn pk v k :=
    hk ▸ hclosed.run hokmid fun oldfd hmem => hdup oldfd (List.mem_append_left _ hmem)
  obtain ⟨q, hq, hqdead⟩ := hdead
  refine ⟨fun p' hp' => ?_, fun c rest heq => ?_⟩
  · rw [hq, Option.some.injEq] at hp'
    exact hp' ▸ hqdead.not_resolves
  · obtain rfl := List.append_cancel_left heq
    rw [hk] at hoktail
    simp only [kstep]
    cases hrun' : k.running pk with
    | none => simp
    | some p' =>
      have hpp : p' = q := Option.some.inj ((running_slot hrun').symm.trans hq)
      subst hpp
      have hne : ∀ oldfd, c ≠ .dup3 oldfd v := fun oldfd h => hdup oldfd (by simp [h])
      exact (LocalCall.run_dead hqdead (hoktail.1 rfl p' hrun') hne).2

/-- After the close of the file's handle another open gets a new one, by the theorem. -/
theorem closed_handle_not_reused_by_open :
    ∃ p, (runFrom knext (bootKernel fun _ => none) (openThen [])).running (some 0) = some p ∧
      Resolves p.handles 4 ∧
      (4 : Handle) ∉ (kstep
        (runFrom knext (bootKernel fun _ => none) (openThen [.call (some 0) (.handleClose 4)]))
        (.call (some 0) (.open (userPath [47]) mmuUserWindowBase 1 true))).2.handles := by
  obtain ⟨p, hp, hres⟩ : ∃ p, (runFrom knext (bootKernel fun _ => none) (openThen [])).running
    (some 0) = some p ∧
      resolve p.handles 4 = .ok 3 := ⟨_, rfl, rfl⟩
  refine ⟨p, hp, ⟨3, hres⟩, ?_⟩
  have := closed_handle_not_reused (fun _ => none) (some 0) (openThen [])
    [.call (some 0) (.open (userPath [47]) mmuUserWindowBase 1 true)] 4 4 p 3 hp rfl hres
    ⟨fun _ q hq => by cases hq; intro i hi; cases hi; unfold Fits; decide, trivial⟩ (by simp) []
      (List.nil_prefix)
  exact this.2 _ [] rfl

/-- **`F_DUPFD` returns a value that was closed**: the file's handle, and it resolves. -/
theorem dupfd_returns_closed_handle :
    let k := runFrom knext (bootKernel fun _ => none) (openThen [])
    let closed := knext k (.call (some 0) (.handleClose 4))
    (kstep k (.call (some 0) (.handleClose 4))).2.rc = 0 ∧
      (kstep closed (.call (some 0) (.fcntl 1 0 0))).2.handles = [4] ∧
      ((knext closed (.call (some 0) (.fcntl 1 0 0))).procs.slot (some 0)).map
        (fun p => decide (Resolves p.handles 4)) = some true := by
  decide +kernel

end Nonux.Syscall
