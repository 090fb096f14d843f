import Nonux.Syscall.References

/-!
# Where a handle entry comes from

An entry of a handle table is made by a syscall that makes its object, or copied from
another entry: by `nx_handle_duplicate`, `sys_dup3` or `F_DUPFD` within a table, and by a
fork from the parent's table to the child's. A handle is a capability only if copies name
what they were copied from and give no right that it did not give.

## The model

An entry is at a place (`Loc`), which is a process and an index of its table. `Copies k op`
is the copying a step does, from place to place, read off the functions; `Derived` follows
an entry along a run, as long as it stays where it is and from copy to copy. Entries get
overwritten and their places reused on the way, in any order and by any process.

## What is proved

* `apply_entry_cases`: all that a step can put at a place. An entry after the step was there
  before, or was copied, or was made for a new channel, or names no channel.
* `handle_derivation_attenuates`: what is derived from an entry names the same object and has
  no more rights.
-/

namespace Nonux.Syscall

open Nonux.Components Nonux.Framework Nonux.Lib Function

/-! ### Rights -/

/-- No right is in `a` that is not in `b`, as `nx_handle_duplicate` tests it. -/
def RightsSubset (a b : UInt32) : Prop := a &&& ~~~b = 0

theorem rightsSubset_iff {a b : UInt32} :
    RightsSubset a b ↔ ∀ i < 32, a.toBitVec.getLsbD i = true → b.toBitVec.getLsbD i = true := by
  unfold RightsSubset
  rw [← UInt32.toBitVec_inj]
  constructor
  · intro h i hi ha
    have := congrArg (fun v : BitVec 32 => v.getLsbD i) h
    simpa [hi, ha] using this
  · intro h
    refine BitVec.eq_of_getLsbD_eq fun i hi => ?_
    have := h i hi
    simp only [UInt32.toBitVec_and, UInt32.toBitVec_not, BitVec.getLsbD_and, BitVec.getLsbD_not, hi,
      decide_true, Bool.true_and, UInt32.toBitVec_ofNat, BitVec.getLsbD_zero, Bool.and_eq_false_imp]
    simpa using this

theorem RightsSubset.refl (a : UInt32) : RightsSubset a a := rightsSubset_iff.mpr fun _ _ h => h

theorem RightsSubset.trans {a b c : UInt32} (hab : RightsSubset a b) (hbc : RightsSubset b c) :
    RightsSubset a c :=
  rightsSubset_iff.mpr fun i hi h => rightsSubset_iff.mp hbc i hi (rightsSubset_iff.mp hab i hi h)

/-- What is within one right has no other. -/
theorem RightsSubset.and_eq_zero {a b r : UInt32} (h : RightsSubset a b) (hr : ~~~b &&& r = r) :
    a &&& r = 0 := by
  rw [← hr, ← UInt32.and_assoc, h, UInt32.zero_and]

/-- The entry `e` is in use, names what `e₀` names and gives no right that `e₀` does not. -/
structure Attenuates (e₀ e : Entry) : Prop where
  live : e.Live
  type : e.type = e₀.type
  object : e.object = e₀.object
  target : e.target = e₀.target
  rights : RightsSubset e.rights e₀.rights

variable {e : Entry}

theorem Attenuates.refl (h : e.Live) : Attenuates e e := ⟨h, rfl, rfl, rfl, .refl _⟩

theorem Attenuates.trans {e₀ e₁ e₂ : Entry} (h : Attenuates e₀ e₁) (h' : Attenuates e₁ e₂) :
    Attenuates e₀ e₂ :=
  ⟨h'.live, h'.type.trans h.type, h'.object.trans h.object, h'.target.trans h.target,
    h'.rights.trans h.rights⟩

/-! ### Places and steps -/

/-- Where an entry is: a process, and an index of its table. -/
abbrev Loc := ProcKey × EntryIdx

/-- The entry at a place, if the process exists. -/
def Kernel.entry (k : Kernel) (l : Loc) : Option Entry :=
  (k.procs.slot l.1).map fun p => p.handles.entries l.2

/-- `NX_RIGHTS_ALL`. -/
def nxRightsAll : UInt32 := 0xffffffff

/-- A step that writes handle entries. -/
inductive HandleOp where
  /-- A syscall or a change of processes. -/
  | step (op : KOp)
  /-- `nx_handle_duplicate` on a process's table. -/
  | duplicate (pk : ProcKey) (src : Handle) (newRights : UInt32)
  /-- `nx_config_open` on a process's table. -/
  | configOpen (pk : ProcKey)
  /-- `nx_handle_table_invalidate_for_slot`. -/
  | invalidateForSlot (depSlot : KSlot)

/-- The step, among all the writers of handle tables. -/
def HandleOp.writer : HandleOp → Writer
  | .step op => .step op
  | .duplicate pk src newRights => .table pk (.call (.duplicate src newRights))
  | .configOpen pk => .table pk (.call (.alloc .config nxRightsAll (.ptr .configSentinel)))
  | .invalidateForSlot s => .invalidateForSlot s

/-- The state after the step. -/
def HandleOp.apply (k : Kernel) (op : HandleOp) : Kernel := op.writer.apply k

/-- The step copies the entry at one place to another. -/
inductive Copies (k : Kernel) : HandleOp → Loc → Loc → Prop
  /-- `sys_dup3`. -/
  | dup3 {pk : ProcKey} {p : Process} {oldfd newfd : Handle} {s i : EntryIdx} {gen : UInt32}
      (hp : k.running pk = some p) (hne : oldfd ≠ newfd) (hs : resolve p.handles oldfd = .ok s)
      (hi : dup3Target newfd = some (i, gen)) :
      Copies k (.step (.call pk (.dup3 oldfd newfd))) (pk, s) (pk, i)
  /-- `F_DUPFD` and `F_DUPFD_CLOEXEC`. -/
  | dupfd {pk : ProcKey} {p : Process} {fd : Handle} {cmd arg : ℤ} {s i : EntryIdx}
      (hp : k.running pk = some p) (hcmd : cmd = 0 ∨ cmd = 1030) (hs : resolve p.handles fd = .ok s)
      (hi : fcntlFree p.handles arg = some i) :
      Copies k (.step (.call pk (.fcntl fd cmd arg))) (pk, s) (pk, i)
  /-- `nx_handle_duplicate`, where it succeeds. -/
  | duplicate {pk : ProcKey} {p : Process} {src : Handle} {newRights : UInt32} {s i : EntryIdx}
      {r : Table × Handle} (hp : k.procs.slot pk = some p) (hs : resolve p.handles src = .ok s)
      (hi : p.handles.firstFree = some i) (hok : nxHandleDuplicate p.handles src newRights = .ok r) :
      Copies k (.duplicate pk src newRights) (pk, s) (pk, i)
  /-- A fork that succeeds copies to the child. -/
  | fork {pk ck : ProcKey} {p : Process} {malloc mmu : Bool} {i : EntryIdx} (hp : k.running pk = some p)
      (hck : (nxProcessFork k.procs p malloc mmu).2 = some ck) (hinh : Inherited (p.handles.entries i)) :
      Copies k (.step (.fork pk malloc mmu true)) (pk, i) (ck, i)

/-- The step makes an entry for one end of a new channel. -/
inductive Made (k : Kernel) : HandleOp → Entry → Prop
  | channelCreate {pk : ProcKey} {e0 e1 : Addr} {calloc : Bool} (side : Fin 2) (gen : UInt32) :
      Made k (.step (.call pk (.channelCreate e0 e1 calloc)))
        (channelEntry (k.objs.chans.next, side) (nxRightRead ||| nxRightWrite ||| nxRightTransfer) gen)
  | pipeRead {pk : ProcKey} {fds : Addr} {calloc : Bool} (gen : UInt32) :
      Made k (.step (.call pk (.pipe fds calloc))) (channelEntry (k.objs.chans.next, 0) nxRightRead gen)
  | pipeWrite {pk : ProcKey} {fds : Addr} {calloc : Bool} (gen : UInt32) :
      Made k (.step (.call pk (.pipe fds calloc))) (channelEntry (k.objs.chans.next, 1) nxRightWrite gen)

/-! ### What the writers leave in a table -/

/-- The entry's object is no channel endpoint. -/
def NamesNoEndpoint (e : Entry) : Prop := ∀ r, e.object ≠ .ptr (.endpoint r)

/-- Every entry of `t'` is as in `t`, or names no endpoint, or is one of the `new` ones. -/
def Changes (new : Entry → Prop) (t t' : Table) : Prop :=
  ∀ i, t'.entries i = t.entries i ∨ NamesNoEndpoint (t'.entries i) ∨ new (t'.entries i)

variable {new : Entry → Prop}

theorem Changes.refl (t : Table) : Changes new t t := fun _ => .inl rfl

variable {t : Table}

theorem Changes.trans {t' t'' : Table} (h : Changes new t t') (h' : Changes new t' t'') :
    Changes new t t'' := by
  intro i
  rcases h' i with heq | hother | hnew
  · rw [heq]
    exact h i
  · exact .inr (.inl hother)
  · exact .inr (.inr hnew)

variable {i : EntryIdx}

theorem changes_update {count : ℕ} (he : NamesNoEndpoint e ∨ new e) :
    Changes new t { entries := update t.entries i e, count } := by
  intro j
  by_cases hji : j = i
  · subst hji
    simpa using .inr he
  · simp [hji]

theorem changes_release (t : Table) (i : EntryIdx) : Changes new t (t.release i) :=
  changes_update (.inl (by simp [HandleEntry.closed, NamesNoEndpoint, ObjWord.null]))

theorem changes_closeIgnored (t : Table) (h : Handle) : Changes new t (handleCloseIgnored t h) := by
  unfold handleCloseIgnored
  split
  · next hc =>
    obtain ⟨i, -, rfl⟩ := nxHandleClose_ok_iff.mp hc
    exact changes_release t i
  · exact .refl t

/-- An entry that `createPair` makes, for the channel `c`. -/
def PairEntry (c : ℕ) (rights0 rights1 : UInt32) (e : Entry) : Prop :=
  ∃ gen, e = channelEntry (c, 0) rights0 gen ∨ e = channelEntry (c, 1) rights1 gen

theorem createPair_changes (t : Table) (o : Objects) (rights0 rights1 : UInt32)
    (copyOut : Except Err Unit) (calloc : Bool) :
    Changes (fun e => calloc = true ∧ PairEntry o.chans.next rights0 rights1 e) t
      (createPair t o rights0 rights1 copyOut calloc).1 := by
  unfold createPair
  cases calloc with
  | false => exact .refl t
  | true =>
    simp only [nxChannelCreate, if_true, true_and]
    split
    · exact .refl t
    · next t₁ h0 hal0 =>
      have h₁ : Changes (PairEntry o.chans.next rights0 rights1) t t₁ := by
        obtain ⟨i, -, -, rfl⟩ := nxHandleAlloc_channel_ok hal0
        exact changes_update (.inr ⟨_, .inl rfl⟩)
      split
      · exact h₁.trans (changes_closeIgnored _ _)
      · next t₂ h1 hal1 =>
        have h₂ : Changes (PairEntry o.chans.next rights0 rights1) t₁ t₂ := by
          obtain ⟨j, -, -, rfl⟩ := nxHandleAlloc_channel_ok hal1
          exact changes_update (.inr ⟨_, .inr rfl⟩)
        split
        · exact ((h₁.trans h₂).trans (changes_closeIgnored _ _)).trans (changes_closeIgnored _ _)
        · exact h₁.trans h₂

theorem sysHandleClose_changes (t : Table) (o : Objects) (h : Handle) :
    Changes new t (sysHandleClose t o h).1 := by
  unfold sysHandleClose
  split
  · exact .refl t
  · dsimp only
    split
    · next hc =>
      obtain ⟨i, -, rfl⟩ := nxHandleClose_ok_iff.mp hc
      exact changes_release t i
    · exact .refl t

theorem OpenedIn.changes {r : Table × Objects × Ret} (h : OpenedIn t r) : Changes new t r.1 := by
  rcases h with ⟨heq, -⟩ | ⟨i, e, heq, -, -, -, hno, -⟩
  · rw [heq]
    exact .refl t
  · rw [heq]
    exact changes_update (.inl hno)

theorem exitHandles_changes (t : Table) (o : Objects) : Changes new t (exitHandles t o).1 := by
  unfold exitHandles
  refine forLoop_inv (fun r : Table × Objects => Changes new t r.1) (.refl t) fun i r ih => ?_
  dsimp only
  split
  · exact ih
  · exact ih.trans (changes_closeIgnored _ _)

/-- The copy of `sys_dup3`. -/
theorem sysDup3_entries {oldfd newfd : Handle} {s : EntryIdx} {gen : UInt32} (o : Objects)
    (hne : oldfd ≠ newfd) (hs : resolve t oldfd = .ok s) (hi : dup3Target newfd = some (i, gen)) :
    (sysDup3 t o oldfd newfd).1.entries = update t.entries i { t.entries s with generation := gen } := by
  simp [sysDup3, hne, hs, hi]

/-- The copy of `F_DUPFD`. -/
theorem sysFcntl_entries {fd : Handle} {cmd arg : ℤ} {s : EntryIdx} (o : Objects)
    (hcmd : cmd = 0 ∨ cmd = 1030) (hs : resolve t fd = .ok s) (hi : fcntlFree t arg = some i) :
    (sysFcntl t o fd cmd arg).1.entries = update t.entries i { t.entries s with generation := 0 } := by
  have hother : ¬ (cmd = 1 ∨ cmd = 2 ∨ cmd = 3 ∨ cmd = 4) := by omega
  simp [sysFcntl, hother, hcmd, fcntlDupfd, hs, hi, HandleTable.occupy]

theorem Inherited.live (h : Inherited e) : e.Live := by
  rcases h with htype | ⟨htype, -⟩ <;> simp [HandleEntry.Live, htype]

/-- **The loop of `sys_fork` copies the entries it inherits and leaves the child's others.** -/
theorem inheritHandles_entries (parent child : Table) (o : Objects) (i : EntryIdx) :
    (inheritHandles parent child o).1.entries i =
      if Inherited (parent.entries i) then parent.entries i else child.entries i := by
  refine forLoop_pointwise (fun r : Table × Objects => r.1.entries)
    (fun i e => if Inherited (parent.entries i) then parent.entries i else e) (fun r j => ?_)
      (fun r j l hlj => ?_)
    (child, o) i
  · by_cases hfree : (parent.entries j).type = .invalid
    · have hnot : ¬ Inherited (parent.entries j) := fun h => h.live hfree
      simp [hfree, hnot]
    · by_cases hinh : Inherited (parent.entries j) <;> simp [hfree, hinh]
  · dsimp only
    split_ifs <;> simp [hlj]

/-! ### What a step leaves at a place -/

variable {k : Kernel} {pk : ProcKey}

/-- The entries after a store of a process. -/
theorem entry_store {k' : Kernel} {q : Process} (hslot : k'.procs.slot = update k.procs.slot pk (some q))
    (l : Loc) : k'.entry l = if l.1 = pk then some (q.handles.entries l.2) else k.entry l := by
  unfold Kernel.entry
  rw [hslot, update_apply]
  split_ifs <;> rfl

variable {p : Process}

theorem entry_of_slot (hp : k.procs.slot pk = some p) (i : EntryIdx) :
    k.entry (pk, i) = some (p.handles.entries i) := by
  simp [Kernel.entry, hp]

theorem knext_call_slot (hp : k.running pk = some p) (c : LocalCall) :
    (knext k (.call pk c)).procs.slot =
      update k.procs.slot pk (some { p with handles := (c.run k.procs p k.objs).1 }) := by
  simp only [knext, kstep, hp, Procs.set]

theorem table_apply_slot (hp : k.procs.slot pk = some p) (op : TableOp KObj KSlot) :
    ((Writer.table pk op).apply k).procs.slot =
      update k.procs.slot pk (some { p with handles := op.apply p.handles }) := by
  simp only [Writer.apply, hp, Procs.set]

/-- The entry that `nx_handle_duplicate` makes, where it succeeds. -/
theorem nxHandleDuplicate_entries {src : Handle} {newRights : UInt32} {s : EntryIdx} {r : Table × Handle}
    (hs : resolve t src = .ok s) (hi : t.firstFree = some i)
    (hok : nxHandleDuplicate t src newRights = .ok r) :
    RightsSubset newRights (t.entries s).rights ∧
      r.1 = t.occupy i { t.entries s with
        rights := newRights, generation := (t.entries i).generation } := by
  obtain ⟨t', h⟩ := r
  obtain ⟨s', hs', hrights, hal⟩ := nxHandleDuplicate_ok_iff.mp hok
  obtain ⟨-, -, i', hi', -, rfl⟩ := nxHandleAllocWithSlot_ok_iff.mp hal
  rw [hs, Except.ok.injEq] at hs'
  rw [hi, Option.some.injEq] at hi'
  subst hs' hi'
  exact ⟨hrights, rfl⟩

variable {op : HandleOp} {l : Loc}

/-- **A copy attenuates what it is a copy of.** -/
theorem Copies.attenuates {l' : Loc} (h : Copies k op l l') :
    ∃ e e', k.entry l = some e ∧ (op.apply k).entry l' = some e' ∧ Attenuates e e' := by
  cases h with
  | @dup3 pk p oldfd newfd s i gen hp hne hs hi =>
    have hlive := (resolve_eq_ok_iff.mp hs).2.1
    refine ⟨_, { p.handles.entries s with generation := gen }, entry_of_slot (running_slot hp) s, ?_,
      hlive, rfl, rfl, rfl, .refl _⟩
    rw [HandleOp.apply, HandleOp.writer, Writer.apply, entry_store (knext_call_slot hp _), if_pos rfl]
    simp only [LocalCall.run]
    rw [sysDup3_entries _ hne hs hi, update_self]
  | @dupfd pk p fd cmd arg s i hp hcmd hs hi =>
    have hlive := (resolve_eq_ok_iff.mp hs).2.1
    refine ⟨_, { p.handles.entries s with generation := 0 }, entry_of_slot (running_slot hp) s, ?_,
      hlive, rfl, rfl, rfl, .refl _⟩
    rw [HandleOp.apply, HandleOp.writer, Writer.apply, entry_store (knext_call_slot hp _), if_pos rfl]
    simp only [LocalCall.run]
    rw [sysFcntl_entries _ hcmd hs hi, update_self]
  | @duplicate pk p src newRights s i r hp hs hi hok =>
    have hlive := (resolve_eq_ok_iff.mp hs).2.1
    obtain ⟨hrights, hr⟩ := nxHandleDuplicate_entries hs hi hok
    refine ⟨_, { p.handles.entries s with
      rights := newRights, generation := (p.handles.entries i).generation },
      entry_of_slot hp s, ?_, hlive, rfl, rfl, rfl, hrights⟩
    rw [HandleOp.apply, HandleOp.writer, entry_store (table_apply_slot hp _), if_pos rfl]
    simp [TableOp.apply, AllocCall.run, hok, hr, HandleTable.occupy]
  | @fork pk ck p malloc mmu i hp hck hinh =>
    refine ⟨_, p.handles.entries i, entry_of_slot (running_slot hp) i, ?_, .refl hinh.live⟩
    rcases sysFork_cases (running_slot hp) malloc mmu true with ⟨hnone, -⟩ | ⟨j, child, hj, -,
      hchild, hslot, -⟩
    · rw [hck] at hnone
      cases hnone
    · rw [hck, Option.some.injEq] at hj
      subst hj
      have hfork : (knext k (.fork pk malloc mmu true)).procs.slot = update k.procs.slot (some j)
          (some child) := by
        simp only [knext, kstep, hp, hslot, if_true]
      rw [HandleOp.apply, HandleOp.writer, Writer.apply, entry_store hfork, if_pos rfl, hchild,
        inheritHandles_entries, if_pos hinh]

/-! ### New channels -/

@[simp] theorem nxChannelEndpointRetain_next (cs : Channels) (r : EndpointRef) :
    (nxChannelEndpointRetain cs r).next = cs.next := by
  simp [nxChannelEndpointRetain]

@[simp] theorem nxChannelEndpointClose_next (cs : Channels) (r : EndpointRef) :
    (nxChannelEndpointClose cs r).next = cs.next := by
  unfold nxChannelEndpointClose
  split
  · rfl
  · dsimp only
    split_ifs <;> simp

@[simp] theorem retainObject_next (o : Objects) (e : Entry) :
    (retainObject o e).chans.next = o.chans.next := by
  unfold retainObject
  split
  · simp
  · unfold nxVfsRetain
    repeat' split
    all_goals rfl
  · rfl

@[simp] theorem closeObject_next (o : Objects) (e : Entry) :
    (closeObject o e).chans.next = o.chans.next := by
  unfold closeObject
  split
  · simp
  · unfold nxVfsClose
    repeat' split
    all_goals rfl
  · rfl
  · rfl

theorem createPair_next (t : Table) (o : Objects) (rights0 rights1 : UInt32) (copyOut : Except Err Unit)
    (calloc : Bool) : (createPair t o rights0 rights1 copyOut calloc).2.1.chans.next =
    o.chans.next + if calloc then 1 else 0 := by
  unfold createPair
  cases calloc with
  | false => rfl
  | true =>
    simp only [nxChannelCreate, if_true]
    repeat' split
    all_goals simp

/-- A syscall makes at most one channel. -/
theorem LocalCall.run_next (ps : Procs) (p : Process) (o : Objects) (c : LocalCall) :
    o.chans.next ≤ (c.run ps p o).2.1.chans.next := by
  cases c with
  | channelCreate e0 e1 calloc =>
    simp only [LocalCall.run, sysChannelCreate]
    split_ifs
    · exact le_rfl
    · exact createPair_next .. ▸ Nat.le_add_right _ _
  | pipe fds calloc =>
    simp only [LocalCall.run, sysPipe]
    split_ifs
    · exact le_rfl
    · exact createPair_next .. ▸ Nat.le_add_right _ _
  | handleClose h =>
    simp only [LocalCall.run, sysHandleClose]
    repeat' split
    all_goals simp
  | «open» mem path flags malloc =>
    simp only [LocalCall.run]
    rw [(sysOpen_cases ..).2]
  | getdents64 h buf cap malloc =>
    simp only [LocalCall.run]
    rcases (sysGetdents64_cases ps p.handles o h buf cap malloc).2 with heq | ⟨d, f, heq⟩ <;> rw [heq]
  | dup3 oldfd newfd =>
    simp only [LocalCall.run, sysDup3]
    repeat' split
    all_goals simp
  | fcntl fd cmd arg =>
    simp only [LocalCall.run, sysFcntl, fcntlDupfd]
    repeat' split
    all_goals simp

theorem inheritHandles_next (parent child : Table) (o : Objects) :
    (inheritHandles parent child o).2.chans.next = o.chans.next := by
  unfold inheritHandles
  refine forLoop_inv (fun r : Table × Objects => r.2.chans.next = o.chans.next) rfl fun i r ih => ?_
  dsimp only
  repeat' split
  · exact ih
  all_goals simpa using ih

theorem exitHandles_next (t : Table) (o : Objects) : (exitHandles t o).2.chans.next = o.chans.next := by
  unfold exitHandles
  refine forLoop_inv (fun r : Table × Objects => r.2.chans.next = o.chans.next) rfl fun i r ih => ?_
  dsimp only
  repeat' split
  all_goals simpa using ih

/-- Channels are never forgotten. -/
theorem HandleOp.apply_next (k : Kernel) (op : HandleOp) :
    k.objs.chans.next ≤ (op.apply k).objs.chans.next := by
  cases op with
  | step op =>
    simp only [HandleOp.apply, HandleOp.writer, Writer.apply, knext]
    cases op with
    | call pk c =>
      simp only [kstep]
      cases k.running pk with
      | none => exact le_rfl
      | some p => exact c.run_next k.procs p k.objs
    | fork pk malloc mmu task =>
      simp only [kstep]
      cases hp : k.running pk with
      | none => exact le_rfl
      | some p =>
        rcases sysFork_cases (running_slot hp) malloc mmu task with ⟨-, -, hobjs⟩ | ⟨i, child, -, -,
          -, -, hobjs⟩
        · rw [hobjs]
        · rw [hobjs, inheritHandles_next]
    | exit pk code =>
      simp only [kstep]
      cases hp : k.running pk with
      | none => exact le_rfl
      | some p =>
        simp only [nxProcessExit, running_slot hp]
        rw [exitHandles_next]
    | destroy pk => exact le_rfl
    | create name malloc mmu => exact le_rfl
  | duplicate pk src newRights | configOpen pk =>
    simp only [HandleOp.apply, HandleOp.writer, Writer.apply]
    split <;> exact le_rfl
  | invalidateForSlot s => exact le_rfl

/-! ### Every entry after a step -/

/-- What can be at a place after a step: what was there, a copy, an entry for a new channel,
or one that names no endpoint. -/
def EntryCases (k : Kernel) (op : HandleOp) (l : Loc) (e : Entry) : Prop :=
  k.entry l = some e ∨ (∃ l', Copies k op l' l) ∨
    (Made k op e ∧ k.objs.chans.next < (op.apply k).objs.chans.next) ∨ NamesNoEndpoint e

theorem Changes.entryCases {t' : Table} (h : Changes new p.handles t') (hp : k.procs.slot pk = some p)
    (hnew : ∀ e, new e → Made k op e ∧ k.objs.chans.next < (op.apply k).objs.chans.next) (i : EntryIdx) :
    EntryCases k op (pk, i) (t'.entries i) := by
  rcases h i with heq | hother | hmade
  · rw [heq]
    exact .inl (entry_of_slot hp i)
  · exact .inr (.inr (.inr hother))
  · exact .inr (.inr (.inl (hnew _ hmade)))

/-- The entries after a system call on the caller's table. -/
theorem LocalCall.run_entryCases (hp : k.running pk = some p) (c : LocalCall) (i : EntryIdx) :
    EntryCases k (.step (.call pk c)) (pk, i) ((c.run k.procs p k.objs).1.entries i) := by
  have hslot := running_slot hp
  have hobjs : ((HandleOp.step (.call pk c)).apply k).objs = (c.run k.procs p k.objs).2.1 := by
    simp only [HandleOp.apply, HandleOp.writer, Writer.apply, knext, kstep, hp]
  have hsame : ∀ {t' : Table}, Changes (fun _ => False) p.handles t' →
      EntryCases k (.step (.call pk c)) (pk, i) (t'.entries i) :=
    fun h => h.entryCases hslot (fun _ hf => hf.elim) i
  cases c with
  | channelCreate e0 e1 calloc =>
    simp only [LocalCall.run, sysChannelCreate] at hobjs ⊢
    split_ifs with hnull
    · exact hsame (.refl _)
    · refine (createPair_changes _ _ _ _ _ _).entryCases hslot ?_ i
      rintro e ⟨hcalloc, gen, rfl | rfl⟩
      all_goals
        refine ⟨.channelCreate _ gen, ?_⟩
        rw [hobjs, if_neg hnull, createPair_next, if_pos hcalloc]
        omega
  | pipe fds calloc =>
    simp only [LocalCall.run, sysPipe] at hobjs ⊢
    split_ifs with hnull
    · exact hsame (.refl _)
    · refine (createPair_changes _ _ _ _ _ _).entryCases hslot ?_ i
      have hnext : k.objs.chans.next <
        ((HandleOp.step (.call pk (.pipe fds calloc))).apply k).objs.chans.next ↔
          calloc = true := by
        rw [hobjs, if_neg hnull, createPair_next]
        cases calloc <;> simp
      rintro e ⟨hcalloc, gen, rfl | rfl⟩
      · exact ⟨.pipeRead gen, hnext.mpr hcalloc⟩
      · exact ⟨.pipeWrite gen, hnext.mpr hcalloc⟩
  | handleClose h => exact hsame (sysHandleClose_changes _ _ _)
  | «open» mem path flags malloc => exact hsame (sysOpen_cases ..).1.changes
  | getdents64 h buf cap malloc =>
    rw [LocalCall.run, (sysGetdents64_cases ..).1]
    exact hsame (.refl _)
  | dup3 oldfd newfd =>
    by_cases hne : oldfd = newfd
    · simp only [LocalCall.run, sysDup3, if_pos hne]
      exact hsame (.refl _)
    · cases hs : resolve p.handles oldfd with
      | error e =>
        simp only [LocalCall.run, sysDup3, if_neg hne, hs]
        exact hsame (.refl _)
      | ok s =>
        cases htgt : dup3Target newfd with
        | none =>
          simp only [LocalCall.run, sysDup3, if_neg hne, hs, htgt]
          exact hsame (.refl _)
        | some r =>
          obtain ⟨j, gen⟩ := r
          rw [LocalCall.run, sysDup3_entries _ hne hs htgt]
          by_cases hij : i = j
          · subst hij
            exact .inr (.inl ⟨_, .dup3 hp hne hs htgt⟩)
          · rw [update_of_ne hij]
            exact .inl (entry_of_slot hslot i)
  | fcntl fd cmd arg =>
    by_cases hcmd : cmd = 0 ∨ cmd = 1030
    · have hother : ¬ (cmd = 1 ∨ cmd = 2 ∨ cmd = 3 ∨ cmd = 4) := by omega
      cases hs : resolve p.handles fd with
      | error e =>
        simp only [LocalCall.run, sysFcntl, if_neg hother, if_pos hcmd, fcntlDupfd, hs]
        exact hsame (.refl _)
      | ok s =>
        cases hfree : fcntlFree p.handles arg with
        | none =>
          simp only [LocalCall.run, sysFcntl, if_neg hother, if_pos hcmd, fcntlDupfd, hs, hfree]
          exact hsame (.refl _)
        | some j =>
          rw [LocalCall.run, sysFcntl_entries _ hcmd hs hfree]
          by_cases hij : i = j
          · subst hij
            exact .inr (.inl ⟨_, .dupfd hp hcmd hs hfree⟩)
          · rw [update_of_ne hij]
            exact .inl (entry_of_slot hslot i)
    · simp only [LocalCall.run, sysFcntl, if_neg hcmd]
      split <;> exact hsame (.refl _)

theorem entryCases_store {k' : Kernel} {q : Process}
    (hslot : k'.procs.slot = update k.procs.slot pk (some q)) (hq : ∀ i, EntryCases k op (pk, i)
      (q.handles.entries i)) (h : k'.entry l = some e) : EntryCases k op l e := by
  obtain ⟨pk', i⟩ := l
  rw [entry_store hslot] at h
  split_ifs at h with hpk
  · cases hpk
    cases h
    exact hq i
  · exact .inl h

theorem entryCases_console (k : Kernel) (op : HandleOp) (l : Loc) (i : EntryIdx) :
    EntryCases k op l (consoleTable.entries i) := by
  refine .inr (.inr (.inr fun r => ?_))
  simp only [consoleTable, HandleTable.occupy, update_apply]
  split_ifs <;> simp [ObjWord.null]

/-- **All that a step can put at a place.** -/
theorem apply_entry_cases (h : (op.apply k).entry l = some e) : EntryCases k op l e := by
  cases op with
  | step op =>
    have hslots := knext_slots k op
    change (knext k op).entry l = some e at h
    generalize hslot : (knext k op).procs.slot = slot at hslots
    cases hslots with
    | same => exact .inl (by rwa [Kernel.entry, hslot] at h)
    | call hp => exact entryCases_store hslot (LocalCall.run_entryCases hp _) h
    | fork hp hck hfree hchild =>
      refine entryCases_store hslot (fun i => ?_) h
      rw [hchild, inheritHandles_entries]
      split_ifs with hinh
      · exact .inr (.inl ⟨_, .fork hp hck hinh⟩)
      · exact entryCases_console _ _ _ i
    | @exit pk p code hp =>
      have hclosed : Changes (fun _ => False) p.handles (exitHandles p.handles k.objs).1 :=
        exitHandles_changes _ _
      refine entryCases_store hslot (fun i => ?_) h
      dsimp only
      exact hclosed.entryCases (running_slot hp) (fun _ hf => hf.elim) i
    | reset =>
      refine entryCases_store hslot (fun i => .inr (.inr (.inr ?_))) h
      simp [nxHandleTableInit, NamesNoEndpoint, ObjWord.null]
    | destroy =>
      simp only [Kernel.entry, hslot, update_apply] at h
      split_ifs at h
      · simp at h
      · exact .inl h
    | create hfree hp =>
      refine entryCases_store hslot (fun j => ?_) h
      rw [hp]
      exact entryCases_console _ _ _ j
  | duplicate pk src newRights =>
    cases hp : k.procs.slot pk with
    | none =>
      simp only [HandleOp.apply, HandleOp.writer, Writer.apply, hp] at h
      exact .inl h
    | some p =>
      refine entryCases_store (table_apply_slot hp _) (fun i => ?_) h
      simp only [TableOp.apply, AllocCall.run]
      cases hok : nxHandleDuplicate p.handles src newRights with
      | error e => exact .inl (entry_of_slot hp i)
      | ok r =>
        obtain ⟨t', hd⟩ := r
        obtain ⟨s, hs, -, hal⟩ := nxHandleDuplicate_ok_iff.mp hok
        obtain ⟨-, -, j, hj, -, rfl⟩ := nxHandleAllocWithSlot_ok_iff.mp hal
        by_cases hij : i = j
        · subst hij
          exact .inr (.inl ⟨_, .duplicate hp hs hj hok⟩)
        · simp only [HandleTable.occupy, update_of_ne hij]
          exact .inl (entry_of_slot hp i)
  | configOpen pk =>
    cases hp : k.procs.slot pk with
    | none =>
      simp only [HandleOp.apply, HandleOp.writer, Writer.apply, hp] at h
      exact .inl h
    | some p =>
      have hmade : Changes (fun _ => False) p.handles
          ((TableOp.call (.alloc .config nxRightsAll (.ptr .configSentinel))).apply p.handles) := by
        simp only [TableOp.apply, AllocCall.run]
        split
        · next hal =>
          obtain ⟨-, -, j, -, -, rfl⟩ := nxHandleAlloc_ok_iff.mp hal
          exact changes_update (.inl (by simp [NamesNoEndpoint]))
        · exact .refl _
      exact entryCases_store (table_apply_slot hp _) (hmade.entryCases hp fun _ hf => hf.elim) h
  | invalidateForSlot s =>
    simp only [HandleOp.apply, HandleOp.writer, Writer.apply, Procs.mapTables, Kernel.entry,
      Option.map_map, Option.map_eq_some_iff, Function.comp_apply] at h
    obtain ⟨p, hp, rfl⟩ := h
    rw [invalidateSlotCb_entries]
    split_ifs
    · exact .inr (.inr (.inr (by simp [HandleEntry.closed, NamesNoEndpoint, ObjWord.null])))
    · exact .inl (entry_of_slot hp l.2)

/-! ### Runs -/

/-- The entry at a place after the steps from `k₀` is derived from the one at `l₀` in `k₀`: it
is that entry, or it is left as it was by a step, or it is a copy that a step makes of a
derived one. -/
inductive Derived (k₀ : Kernel) (l₀ : Loc) : List HandleOp → Loc → Prop
  | origin : Derived k₀ l₀ [] l₀
  | kept {ops : List HandleOp} {op : HandleOp} {l : Loc} (h : Derived k₀ l₀ ops l)
      (hsame : (op.apply (runFrom HandleOp.apply k₀ ops)).entry l =
        (runFrom HandleOp.apply k₀ ops).entry l) :
      Derived k₀ l₀ (ops ++ [op]) l
  | copied {ops : List HandleOp} {op : HandleOp} {l l' : Loc} (h : Derived k₀ l₀ ops l)
      (hcopy : Copies (runFrom HandleOp.apply k₀ ops) op l l') : Derived k₀ l₀ (ops ++ [op]) l'

theorem runFrom_snoc (k : Kernel) (ops : List HandleOp) (op : HandleOp) :
    runFrom HandleOp.apply k (ops ++ [op]) = op.apply (runFrom HandleOp.apply k ops) := by
  rw [runFrom_append, runFrom_cons, runFrom_nil]

/-- Along a chain of copies the rights only shrink. -/
theorem Derived.attenuates {k₀ : Kernel} {l₀ : Loc} {ops : List HandleOp} {e₀ : Entry}
    (h : Derived k₀ l₀ ops l) (he₀ : k₀.entry l₀ = some e₀) (hlive : e₀.Live) :
    ∃ e, (runFrom HandleOp.apply k₀ ops).entry l = some e ∧ Attenuates e₀ e := by
  induction h with
  | origin => exact ⟨e₀, he₀, .refl hlive⟩
  | kept _ hsame ih =>
    rw [runFrom_snoc, hsame]
    exact ih
  | copied _ hcopy ih =>
    obtain ⟨e₁, he₁, hatt⟩ := ih
    obtain ⟨e, e', he, he', hcopied⟩ := hcopy.attenuates
    rw [he₁, Option.some.injEq] at he
    subst he
    exact ⟨e', by rw [runFrom_snoc, he'], hatt.trans hcopied⟩

/-- Entries name channels that exist. -/
def ChannelsExist (k : Kernel) : Prop :=
  ∀ l e r, k.entry l = some e → e.object = .ptr (.endpoint r) → r.1 < k.objs.chans.next

theorem Made.object {r : EndpointRef} (h : Made k op e) (hr : e.object = .ptr (.endpoint r)) :
    r.1 = k.objs.chans.next := by
  cases h <;> cases hr <;> rfl

theorem ChannelsExist.apply (h : ChannelsExist k) (op : HandleOp) : ChannelsExist (op.apply k) := by
  intro l e r he hr
  have hnext := HandleOp.apply_next k op
  rcases apply_entry_cases he with hkept | ⟨l', hcopy⟩ | ⟨hmade, hlt⟩ | hother
  · exact (h l e r hkept hr).trans_le hnext
  · obtain ⟨e₁, e₂, he₁, he₂, hatt⟩ := hcopy.attenuates
    rw [he, Option.some.injEq] at he₂
    subst he₂
    exact (h l' e₁ r he₁ (hatt.object ▸ hr)).trans_le hnext
  · rwa [hmade.object hr]
  · exact absurd hr (hother r)

theorem channelsExist_run (files : Fin 32 → Option RamfsFile) (ops : List HandleOp) :
    ChannelsExist (runFrom HandleOp.apply (bootKernel files) ops) := by
  refine runFrom_inv ChannelsExist (fun k op hk => hk.apply op) ?_ ops
  intro l e r he hr
  simp only [Kernel.entry, bootKernel, bootProcs, update_apply] at he
  split_ifs at he
  · cases he
    cases hr
  · cases he

/-- Entries on the two ends of channel `c` have the rights of a pipe's ends at most. -/
structure PipeRights (c : ℕ) (k : Kernel) : Prop where
  exist : c < k.objs.chans.next
  read : ∀ l e, k.entry l = some e → e.object = .ptr (.endpoint (c, 0)) →
    RightsSubset e.rights nxRightRead
  write : ∀ l e, k.entry l = some e → e.object = .ptr (.endpoint (c, 1)) →
    RightsSubset e.rights nxRightWrite

/-- A bound on the rights of an endpoint's entries is kept by copies, and by everything else
that does not make the channel. -/
theorem endpoint_rights_apply {r : EndpointRef} {m : UInt32} (hr : r.1 < k.objs.chans.next)
    (h : ∀ l e, k.entry l = some e → e.object = .ptr (.endpoint r) → RightsSubset e.rights m) :
    ∀ l e, (op.apply k).entry l = some e → e.object = .ptr (.endpoint r) → RightsSubset e.rights m := by
  intro l e he hobj
  rcases apply_entry_cases he with hkept | ⟨l', hcopy⟩ | ⟨hmade, -⟩ | hother
  · exact h l e hkept hobj
  · obtain ⟨e₁, e₂, he₁, he₂, hatt⟩ := hcopy.attenuates
    rw [he, Option.some.injEq] at he₂
    subst he₂
    exact hatt.rights.trans (h l' e₁ he₁ (hatt.object ▸ hobj))
  · have := hmade.object hobj
    omega
  · exact absurd hobj (hother r)

theorem PipeRights.apply {c : ℕ} (h : PipeRights c k) (op : HandleOp) : PipeRights c (op.apply k) :=
  ⟨h.exist.trans_le (HandleOp.apply_next k op), endpoint_rights_apply h.exist h.read,
    endpoint_rights_apply h.exist h.write⟩

/-- A pipe begins with its two entries. -/
theorem pipeRights_pipe {fds : Addr} {hread hwrite : Handle} (h : ChannelsExist k)
    (hok : (kstep k (.call pk (.pipe fds true))).2.handles = [hread, hwrite]) :
    PipeRights k.objs.chans.next ((HandleOp.step (.call pk (.pipe fds true))).apply k) := by
  have hnext : ((HandleOp.step (.call pk (.pipe fds true))).apply k).objs.chans.next =
      k.objs.chans.next + 1 := by
    simp only [HandleOp.apply, HandleOp.writer, Writer.apply, knext]
    cases hp : k.running pk with
    | none => simp [kstep, hp] at hok
    | some p =>
      simp only [kstep, hp, LocalCall.run, sysPipe] at hok ⊢
      by_cases hnull : fds = 0
      · simp [hnull, Ret.err] at hok
      · rw [if_neg hnull, createPair_next, if_pos rfl]
  -- No entry was on the channel before, and the pipe copies none.
  have hnew : ∀ l e s, ((HandleOp.step (.call pk (.pipe fds true))).apply k).entry l = some e →
      e.object = .ptr (.endpoint (k.objs.chans.next, s)) →
        Made k (.step (.call pk (.pipe fds true))) e := by
    intro l e s he hobj
    rcases apply_entry_cases he with hkept | ⟨l', hcopy⟩ | ⟨hmade, -⟩ | hother
    · exact absurd (h l e _ hkept hobj) (lt_irrefl _)
    · cases hcopy
    · exact hmade
    · exact absurd hobj (hother _)
  refine ⟨by omega, fun l e he hobj => ?_, fun l e he hobj => ?_⟩
  · cases hnew l e 0 he hobj with
    | pipeRead gen => exact .refl _
    | pipeWrite gen => cases hobj
  · cases hnew l e 1 he hobj with
    | pipeRead gen => cases hobj
    | pipeWrite gen => exact .refl _

/-- A pipe, by the first process. -/
def pipeOp : HandleOp := .step (.call (some 0) (.pipe 0x48000000 true))

end Nonux.Syscall
