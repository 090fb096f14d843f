import Nonux.Syscall.HandleCount

/-!
# References from handle entries to objects

Channel endpoints, files open in the vfs and directory cursors all hang on the handle
entries that name them, and the same few functions make, copy and drop such entries.
What is the same for the three is proved once here. A `RefKind` is one kind of object:
which entries name which object, what it means that the objects are as they should be
when they have given numbers of references (`Ok`), and that making, retaining and
closing one object keeps that, with the numbers moving by one reference.

From this alone follows what every syscall does (`RefKind.run_ok`), what a fork and an
exit do, and so every step of the kernel (`RefKind.step`): the objects stay as they
should be for the numbers of entries in all processes (`RefKind.total`), as long as the
step meets `RefKind.StepOk`. That condition excludes the places where the code drops an
entry without closing the object or closes the object and keeps the entry:

* `nx_process_destroy`, also from a fork whose task cannot be allocated, closes no
  object, and `nx_process_exit` closes only channels;
* `sys_dup3` onto the entry it copies closes the object before it retains it;
* a handle whose generation does not fit is not closed by `nx_handle_close`, which
  `nx_process_exit` and the failure paths of `createPair` ignore;
* a directory cursor has no count, so that the first close of several frees it.
-/

namespace Nonux.Syscall

open Nonux.Components Nonux.Framework Nonux.Lib Function

/-! ### The entries that syscalls make -/

/-- An entry for a channel endpoint. -/
def channelEntry (r : EndpointRef) (rights gen : UInt32) : Entry :=
  { type := .channel, rights, object := .ptr (.endpoint r), generation := gen }

/-- An entry for a file open in the vfs. -/
def fileEntry (id rights gen : UInt32) : Entry :=
  { type := .resource, rights, object := .id id, generation := gen, target := some .vfs }

/-- An entry for a directory cursor. -/
def dirEntry (d : ℕ) (gen : UInt32) : Entry :=
  { type := .dir, rights := nxRightRead, object := .ptr (.cursor d), generation := gen,
    target := some .vfs }

/-- One kind of object behind handle entries. -/
structure RefKind where
  /-- The identity of an object. -/
  Ref : Type
  decEq : DecidableEq Ref
  /-- The object an entry names, if it is of this kind. Rights and generation do not matter. -/
  name : Entry → Option Ref
  name_copy : ∀ e rights gen, name { e with rights, generation := gen } = name e
  name_free : ∀ e, ¬ e.Live → name e = none
  /-- The console's entries name no object. -/
  name_console : ∀ e, e.target = some .charDeviceSerial → e.type = .resource → name e = none
  /-- The objects keep counts. If not, only the sole entry of an object may be closed. -/
  counted : Bool
  /-- The objects are as they should be with these numbers of references. -/
  Ok : Objects → (Ref → ℕ) → Prop
  close_ok : ∀ {o c e}, (counted = false → ∀ r, name e = some r → c r = 0) → Ok o (c + oneRef (name e)) →
    Ok (closeObject o e) c
  retain_ok : ∀ {o c e}, (∀ r, name e = some r → 0 < c r) → Ok o c →
    Ok (retainObject o e) (c + oneRef (name e))
  /-- `nx_channel_create`. -/
  create_ok : ∀ {o c}, Ok o c → Ok { o with chans := o.chans.alloc {} }
    (c + oneRef (name (channelEntry (o.chans.next, 0) 0 0)) + oneRef
      (name (channelEntry (o.chans.next, 1) 0 0)))
  /-- `nx_vfs_open`. -/
  open_ok : ∀ {o c} ps path flags, Ok o c →
    ((vfsSimpleOpen o.vfs ps path flags).2 = 0 ∧
      Ok { o with vfs := (vfsSimpleOpen o.vfs ps path flags).1 } c) ∨
      (vfsSimpleOpen o.vfs ps path flags).2 ≠ 0 ∧
        Ok { o with vfs := (vfsSimpleOpen o.vfs ps path flags).1 }
        (c + oneRef (name (fileEntry (vfsSimpleOpen o.vfs ps path flags).2 0 0)))
  /-- The allocation of a cursor. -/
  cursor_ok : ∀ {o c} cur, Ok o c → (∀ r, name (dirEntry o.cursors.next 0) = some r → c r = 0) ∧
    Ok { o with cursors := o.cursors.alloc cur } (c + oneRef (name (dirEntry o.cursors.next 0)))
  /-- The store to a cursor. -/
  cookie_ok : ∀ {o c} d f, Ok o c → Ok { o with cursors := o.cursors.modify d f } c
  /-- Only directory entries name objects without counts. -/
  uncounted_dir : ∀ e, counted = false → name e ≠ none → e.type = .dir

namespace RefKind

variable (K : RefKind)

instance : DecidableEq K.Ref := K.decEq

/-- The references a table holds. -/
def held (t : Table) : K.Ref → ℕ := heldBy K.name t.entries

variable {K}

/-! ### Stores to a table -/

theorem held_store (t : Table) (i : EntryIdx) (e : Entry) (count : ℕ) :
    K.held { entries := update t.entries i e, count } + oneRef (K.name (t.entries i)) =
      K.held t + oneRef (K.name e) := heldBy_update K.name t.entries i e

theorem held_release (t : Table) (i : EntryIdx) :
    K.held (t.release i) + oneRef (K.name (t.entries i)) = K.held t := by
  have := held_store (K := K) t i (t.entries i).closed (t.count - 1)
  rwa [K.name_free _ (HandleEntry.not_live_closed _), oneRef_none, add_zero] at this

theorem held_occupy {t : Table} {i : EntryIdx} (e : Entry) (hfree : ¬ (t.entries i).Live) :
    K.held (t.occupy i e) = K.held t + oneRef (K.name e) := by
  have := held_store (K := K) t i e (t.count + 1)
  rwa [K.name_free _ hfree, oneRef_none, add_zero] at this

theorem held_pos {t : Table} {i : EntryIdx} {r : K.Ref} (h : K.name (t.entries i) = some r) :
    0 < K.held t r :=
  heldBy_pos h

end RefKind

variable {t : Table}

/-- **The handle of an entry closes that entry**, if its generation fits. -/
theorem handleCloseIgnored_encode {i : EntryIdx} {g : UInt32} (hg : (t.entries i).generation = g) :
    handleCloseIgnored t (encodeHandle g i) =
      if (t.entries i).Live ∧ g.toNat < 2 ^ 24 then t.release i else t := by
  subst hg
  unfold handleCloseIgnored
  split_ifs with h
  · have hres : resolve t (encodeHandle (t.entries i).generation i) = .ok i :=
      resolve_eq_ok_iff.mpr ⟨decodeIndex_encodeHandle _ _, h.1,
        decodeGeneration_encodeHandle_iff.mpr h.2⟩
    rw [nxHandleClose_ok_iff.mpr ⟨i, hres, rfl⟩]
  · split
    · next hc =>
      obtain ⟨j, hj, -⟩ := nxHandleClose_ok_iff.mp hc
      obtain ⟨hdec, hlive, hgen⟩ := resolve_eq_ok_iff.mp hj
      rw [decodeIndex_encodeHandle, Option.some.injEq] at hdec
      subst hdec
      exact absurd ⟨hlive, decodeGeneration_encodeHandle_iff.mp hgen⟩ h
    · rfl

/-! ### The condition on a step -/

/-- `sys_handle_close` of `h` closes the entry `i`. -/
def ClosedBy (t : Table) (h : Handle) (i : EntryIdx) : Prop :=
  ∃ h', routeStdin t h = .ok h' ∧ resolve t h' = .ok i

/-- The first free entry, leaving out `i`. -/
def freeBut (t : Table) (i : EntryIdx) : Option EntryIdx :=
  (List.finRange 64).find? fun j => decide (j ≠ i ∧ ¬ (t.entries j).Live)

theorem firstFree_occupy {i : EntryIdx} {e : Entry} (he : e.Live) :
    (t.occupy i e).firstFree = freeBut t i := by
  unfold HandleTable.firstFree freeBut HandleTable.occupy
  congr 1
  funext j
  by_cases hji : j = i
  · subst hji; simpa [HandleEntry.Live] using he
  · simp [hji, HandleEntry.Live]

theorem nxHandleAlloc_channel_error {rights : UInt32} {r : EndpointRef} {e : Err}
    (h : nxHandleAlloc t .channel rights (.ptr (.endpoint r)) = .error e) : t.firstFree = none := by
  cases hf : t.firstFree with
  | none => rfl
  | some i =>
    rw [nxHandleAlloc_ok_iff.mpr ⟨by decide, by simp [ObjWord.null], i, hf, rfl, rfl⟩] at h
    exact absurd h (by simp)

theorem nxHandleAlloc_channel_ok {t' : Table} {rights : UInt32} {r : EndpointRef} {h : Handle}
    (hal : nxHandleAlloc t .channel rights (.ptr (.endpoint r)) = .ok (t', h)) :
    ∃ i, t.firstFree = some i ∧ h = encodeHandle (t.entries i).generation i ∧
      t' = t.occupy i (channelEntry r rights (t.entries i).generation) := by
  obtain ⟨-, -, i, hf, rfl, rfl⟩ := nxHandleAlloc_ok_iff.mp hal
  exact ⟨i, hf, rfl, rfl⟩

/-- What is undone after a failure of `createPair` can be undone: if there is one free
entry only, or the copy to user memory fails, the entries taken have generations that fit. -/
def PairOk (t : Table) (copyOut : Except Err Unit) : Prop :=
  ∀ i, t.firstFree = some i →
    match freeBut t i with
    | none => Fits t i
    | some j => copyOut ≠ .ok () → Fits t i ∧ Fits t j

namespace RefKind

variable (K : RefKind)

/-- The entry may be dropped with a close of its object, when the objects have `total`
references: the kind keeps counts, or the entry is the only one. -/
def DropOk (total : K.Ref → ℕ) (e : Entry) : Prop :=
  K.counted = false → ∀ r, K.name e = some r → total r = 1

/-- Objects of this kind are named by channel entries. -/
def NamesChannels : Prop := ∃ r, K.name (channelEntry r 0 0) ≠ none

/-- The condition on a syscall, when the objects have `total` references. -/
def CallOk (total : K.Ref → ℕ) (t : Table) : LocalCall → Prop
  | .channelCreate e0 e1 calloc =>
    K.NamesChannels → e0 ≠ 0 ∧ e1 ≠ 0 → calloc = true → PairOk t (channelCreateCopyOut e0 e1)
  | .pipe fds calloc => K.NamesChannels → fds ≠ 0 → calloc = true → PairOk t (userRangeCheck fds 8)
  | .handleClose h => ∀ i, ClosedBy t h i → K.DropOk total (t.entries i)
  | .dup3 oldfd newfd => oldfd ≠ newfd → ∀ s i g, resolve t oldfd = .ok s →
      dup3Target newfd = some (i, g) →
    K.DropOk total (t.entries i) ∧
      -- Onto itself: another entry keeps the object alive between the close and the retain.
      (i = s → ∀ r, K.name (t.entries s) = some r → 1 < total r)
  | .open _ _ _ _ | .getdents64 _ _ _ _ | .fcntl _ _ _ => True

/-- The references that the handles of a process are. -/
def procRefs : Option Process → K.Ref → ℕ
  | none => 0
  | some p => K.held p.handles

/-- The references from the handle tables of all processes. -/
def total (ps : Procs) : K.Ref → ℕ := fun r => sumOver (fun q => K.procRefs q r) ps.slot

/-- The condition on a step. -/
def StepOk (k : Kernel) : KOp → Prop
  | .call pk c => ∀ p, k.running pk = some p → K.CallOk (K.total k.procs) p.handles c
  -- The child is destroyed again: it must not have inherited a reference.
  | .fork pk malloc mmu task => malloc = true → mmu = true → task = false → k.procs.firstFree ≠ none →
    ∀ p, k.running pk = some p → ∀ i, Inherited (p.handles.entries i) →
      K.name (p.handles.entries i) = none
  | .exit pk _ => ∀ p, k.running pk = some p → ∀ i, K.name (p.handles.entries i) ≠ none →
    (p.handles.entries i).type = .channel ∧ Fits p.handles i
  | .destroy pk => ∀ p, k.procs.slot pk = some p → ∀ i, K.name (p.handles.entries i) = none
  | .create _ _ _ => True

variable {K}

/-! ### Syscalls -/

variable {t : Table} {i : EntryIdx}

theorem held_closeIgnored {g : UInt32} (hg : (t.entries i).generation = g)
    (hfit : K.name (t.entries i) ≠ none → g.toNat < 2 ^ 24) :
    K.held (handleCloseIgnored t (encodeHandle g i)) + oneRef (K.name (t.entries i)) = K.held t := by
  rw [handleCloseIgnored_encode hg]
  split_ifs with h
  · exact held_release t i
  · -- The entry is not closed, and then it names nothing.
    have hnone : K.name (t.entries i) = none := by
      by_contra hne
      exact hne (K.name_free _ fun hlive => h ⟨hlive, hfit hne⟩)
    rw [hnone, oneRef_none, add_zero]

theorem name_channelEntry (r : EndpointRef) (rights gen : UInt32) :
    K.name (channelEntry r rights gen) = K.name (channelEntry r 0 0) :=
  K.name_copy (channelEntry r 0 0) rights gen

variable {c : K.Ref → ℕ}

/-- Nothing is asked for the close of an object that is no directory cursor. -/
theorem counted_of_ne_dir {e : Entry} (hdir : e.type ≠ .dir) :
    K.counted = false → ∀ r, K.name e = some r → c r = 0 :=
  fun hc r hr => absurd (K.uncounted_dir e hc (by simp [hr])) hdir

variable {o : Objects}

/-- The undoing of `createPair` closes both ends of the new channel. -/
theorem undone_ok (h : K.Ok o c) :
    K.Ok (closeObject (closeObject { o with chans := o.chans.alloc {} }
      (channelEntry (o.chans.next, 0) 0 0)) (channelEntry (o.chans.next, 1) 0 0)) c := by
  have hmade := K.create_ok h
  rw [add_right_comm] at hmade
  have hchan : ∀ s, (channelEntry (o.chans.next, s) 0 0).type ≠ .dir := fun s => by simp [channelEntry]
  exact K.close_ok (counted_of_ne_dir (hchan 1)) (K.close_ok (counted_of_ne_dir (hchan 0)) hmade)

/-- The undoing of one of its entries. -/
theorem held_undo {r : EndpointRef} {rights g : UInt32} (hent : t.entries i = channelEntry r rights g)
    (hfit : K.NamesChannels → g.toNat < 2 ^ 24) :
    K.held (handleCloseIgnored t (encodeHandle g i)) + oneRef (K.name (channelEntry r 0 0)) =
      K.held t := by
  have := held_closeIgnored (K := K) (t := t) (i := i) (g := g) (by rw [hent]; rfl) (by
    rw [hent, name_channelEntry]
    exact fun hne => hfit ⟨r, hne⟩)
  rwa [hent, name_channelEntry] at this

theorem held_channel (r : EndpointRef) (rights g : UInt32) (hi : t.firstFree = some i) :
    K.held (t.occupy i (channelEntry r rights g)) = K.held t + oneRef (K.name (channelEntry r 0 0)) := by
  rw [held_occupy _ (firstFree_some hi), name_channelEntry]

/-- The undoing of both. -/
theorem held_undo_both {t₁ t₂ : Table} {j : EntryIdx} {r₀ r₁ : EndpointRef} {rights0 rights1 : UInt32}
    (ht₁ : t₁ = t.occupy i (channelEntry r₀ rights0 (t.entries i).generation))
    (hi : t.firstFree = some i)
    (ht₂ : t₂ = t₁.occupy j (channelEntry r₁ rights1 (t₁.entries j).generation))
    (hj : t₁.firstFree = some j) (hfit : K.NamesChannels → Fits t i ∧ Fits t j) :
    K.held (handleCloseIgnored (handleCloseIgnored t₂ (encodeHandle (t.entries i).generation i))
      (encodeHandle (t₁.entries j).generation j)) = K.held t := by
  have hent : t₁.entries i = channelEntry r₀ rights0 (t.entries i).generation := by
    simp [ht₁, HandleTable.occupy]
  have hji : i ≠ j := by
    rintro rfl
    exact firstFree_some hj (by rw [hent]; simp [HandleEntry.Live, channelEntry])
  have hgen : (t₁.entries j).generation = (t.entries j).generation := by
    simp [ht₁, HandleTable.occupy, hji.symm]
  have hent0 : t₂.entries i = channelEntry r₀ rights0 (t.entries i).generation := by
    simp [ht₂, HandleTable.occupy, hji, hent]
  have hclosed0 := held_undo (K := K) hent0 fun hn => (hfit hn).1
  set t₃ := handleCloseIgnored t₂ (encodeHandle (t.entries i).generation i) with ht₃
  have hent1 : t₃.entries j = channelEntry r₁ rights1 (t₁.entries j).generation := by
    rw [ht₃, handleCloseIgnored_encode (by rw [hent0]; rfl)]
    split_ifs <;> simp [HandleTable.release, ht₂, HandleTable.occupy, hji.symm]
  have hclosed1 := held_undo (K := K) hent1 fun hn => hgen ▸ (hfit hn).2
  have hheld1 : K.held t₂ = K.held t₁ + _ := ht₂ ▸ held_channel r₁ rights1 (t₁.entries j).generation hj
  have hheld0 : K.held t₁ = K.held t + _ := ht₁ ▸ held_channel r₀ rights0 (t.entries i).generation hi
  rw [← hclosed1, hheld1, hheld0, add_right_comm, add_left_inj, add_left_inj] at hclosed0
  exact hclosed0

/-- **`sys_channel_create` and `sys_pipe` keep the references right.** -/
theorem createPair_ok (rights0 rights1 : UInt32) {copyOut : Except Err Unit} {calloc : Bool}
    (hpair : K.NamesChannels → calloc = true → PairOk t copyOut) (h : K.Ok o (c + K.held t)) :
    K.Ok (createPair t o rights0 rights1 copyOut calloc).2.1
      (c + K.held (createPair t o rights0 rights1 copyOut calloc).1) := by
  cases calloc with
  | false => exact h
  | true =>
    simp only [createPair, nxChannelCreate, if_true]
    have hundone := undone_ok h
    cases hal0 : nxHandleAlloc t .channel rights0 (.ptr (.endpoint (o.chans.next, 0))) with
    | error e => exact hundone
    | ok r =>
      obtain ⟨t₁, h0⟩ := r
      obtain ⟨i, hi, rfl, rfl⟩ := nxHandleAlloc_channel_ok hal0
      have hlive0 : (channelEntry (o.chans.next, 0) rights0 (t.entries i).generation).Live := by
        simp [HandleEntry.Live, channelEntry]
      have hheld0 := held_channel (K := K) (o.chans.next, 0) rights0 (t.entries i).generation hi
      have hnext := firstFree_occupy (t := t) (i := i) hlive0
      dsimp only
      set t₁ := t.occupy i (channelEntry (o.chans.next, 0) rights0 (t.entries i).generation) with ht₁
      have hent0 : t₁.entries i = channelEntry (o.chans.next, 0) rights0 (t.entries i).generation := by
        simp [ht₁, HandleTable.occupy]
      cases hal1 : nxHandleAlloc t₁ .channel rights1 (.ptr (.endpoint (o.chans.next, 1))) with
      | error e =>
        have hlast : freeBut t i = none := hnext.symm.trans (nxHandleAlloc_channel_error hal1)
        have hclosed := held_undo (K := K) hent0 fun hn => by
          have := hpair hn rfl i hi
          rwa [hlast] at this
        rw [hheld0, add_left_inj] at hclosed
        dsimp only
        rw [hclosed]
        exact hundone
      | ok r =>
        obtain ⟨t₂, h1⟩ := r
        obtain ⟨j, hj, rfl, rfl⟩ := nxHandleAlloc_channel_ok hal1
        have hheld1 := held_channel (K := K) (o.chans.next, 1) rights1 (t₁.entries j).generation hj
        dsimp only
        set t₂ := t₁.occupy j (channelEntry (o.chans.next, 1) rights1 (t₁.entries j).generation) with ht₂
        cases copyOut with
        | ok u =>
          dsimp only
          rw [hheld1, hheld0, ← add_assoc, ← add_assoc]
          exact K.create_ok h
        | error e =>
          have hfit : K.NamesChannels → Fits t i ∧ Fits t j := fun hn => by
            have := hpair hn rfl i hi
            rw [← hnext, hj] at this
            exact this (by simp)
          dsimp only
          rw [held_undo_both ht₁ hi ht₂ hj hfit]
          exact hundone

/-- The close of an object and of the entry that names it. -/
theorem closeObject_release_ok (hdrop : K.DropOk (c + K.held t) (t.entries i))
    (h : K.Ok o (c + K.held t)) :
    K.Ok (closeObject o (t.entries i)) (c + K.held (t.release i)) := by
  have hrel := held_release (K := K) t i
  refine K.close_ok (fun hc r hr => ?_) (by rwa [add_assoc, hrel])
  have hone := hdrop hc r hr
  rw [← hrel, ← add_assoc, Pi.add_apply, hr, oneRef_some_self] at hone
  omega

theorem sysHandleClose_ok {h : Handle}
    (hdrop : ∀ i, ClosedBy t h i → K.DropOk (c + K.held t) (t.entries i)) (hok : K.Ok o
      (c + K.held t)) : K.Ok (sysHandleClose t o h).2.1 (c + K.held (sysHandleClose t o h).1) := by
  unfold sysHandleClose
  cases hroute : routeStdin t h with
  | error e => exact hok
  | ok h' =>
    cases hres : resolve t h' with
    | error e =>
      simp only [hres, nxHandleClose, Except.map]
      exact hok
    | ok i =>
      simp only [hres, nxHandleClose, Except.map]
      exact closeObject_release_ok (hdrop i ⟨h', hroute, hres⟩) hok

theorem openDir_ok (kpath : Path) (malloc : Bool) (h : K.Ok o (c + K.held t)) :
    K.Ok (openDir t o kpath malloc).2.1 (c + K.held (openDir t o kpath malloc).1) := by
  cases malloc with
  | false => exact h
  | true =>
    obtain ⟨hfresh, hmade⟩ := K.cursor_ok { cookie := 0, path := kpath.take (nxPathMax - 1) } h
    simp only [openDir, Bool.true_eq_false, if_false]
    cases hal : nxHandleAllocWithSlot t .dir nxRightRead (.ptr (.cursor o.cursors.next)) (some .vfs) with
    | error e => exact K.close_ok (fun _ => hfresh) hmade
    | ok r =>
      obtain ⟨t', h'⟩ := r
      obtain ⟨-, -, i, hi, -, rfl⟩ := nxHandleAllocWithSlot_ok_iff.mp hal
      have hname : K.name ⟨.dir, nxRightRead, .ptr (.cursor o.cursors.next),
        (t.entries i).generation, some .vfs⟩ =
          K.name (dirEntry o.cursors.next 0) := K.name_copy (dirEntry o.cursors.next 0) nxRightRead _
      dsimp only
      rw [held_occupy _ (firstFree_some hi), hname, ← add_assoc]
      exact hmade

theorem openFile_ok (ps : Procs) (kpath : Path) (flags : UInt32) (h : K.Ok o (c + K.held t)) :
    K.Ok (openFile ps t o kpath flags).2.1 (c + K.held (openFile ps t o kpath flags).1) := by
  unfold openFile
  rcases K.open_ok ps kpath flags h with ⟨hzero, hok⟩ | ⟨hne, hok⟩
  · simp only [hzero, if_true]
    exact hok
  · simp only [hne, if_false]
    cases hal : nxHandleAllocResource t (openRights flags) (vfsSimpleOpen o.vfs ps kpath flags).2
      (some .vfs) with
    | error e =>
      exact K.close_ok (e := fileEntry (vfsSimpleOpen o.vfs ps kpath flags).2 0 0)
        (counted_of_ne_dir (by simp [fileEntry]))
        hok
    | ok r =>
      obtain ⟨t', h'⟩ := r
      obtain ⟨i, hi, -, rfl⟩ := nxHandleAllocResource_ok_iff.mp hal
      have hname : K.name ⟨.resource, openRights flags, .id (vfsSimpleOpen o.vfs ps kpath flags).2,
          (t.entries i).generation, some .vfs⟩ = K.name
            (fileEntry (vfsSimpleOpen o.vfs ps kpath flags).2 0 0) :=
        K.name_copy (fileEntry (vfsSimpleOpen o.vfs ps kpath flags).2 0 0) (openRights flags) _
      dsimp only
      rw [held_occupy _ (firstFree_some hi), hname, ← add_assoc]
      exact hok

theorem sysOpen_ok (ps : Procs) (cwd : Path) (mem : UserMem) (userPath : Addr) (flags : UInt32)
    (malloc : Bool) (h : K.Ok o (c + K.held t)) :
    K.Ok (sysOpen ps cwd t o mem userPath flags malloc).2.1
      (c + K.held (sysOpen ps cwd t o mem userPath flags malloc).1) := by
  unfold sysOpen
  split
  · exact h
  · dsimp only
    split
    · split_ifs
      · exact openDir_ok _ _ h
      · exact openFile_ok _ _ _ h
    · exact openFile_ok _ _ _ h

theorem sysGetdents64_ok (ps : Procs) (h : Handle) (userBuf : Addr) (cap : UInt64) (malloc : Bool)
    (hok : K.Ok o (c + K.held t)) :
    K.Ok (sysGetdents64 ps t o h userBuf cap malloc).2.1
      (c + K.held (sysGetdents64 ps t o h userBuf cap malloc).1) := by
  obtain ⟨htable, hobjs⟩ := sysGetdents64_cases ps t o h userBuf cap malloc
  rw [htable]
  rcases hobjs with hsame | ⟨d, f, hmod⟩
  · rw [hsame]; exact hok
  · rw [hmod]; exact K.cookie_ok d f hok

/-- The copy of an entry's object into a table that holds the rest: a retain where the
object is still referred to. -/
theorem retain_store_ok {src : Entry} (e : Entry) (count : ℕ) (hname : K.name e = K.name src)
    (hold : K.name (t.entries i) = none) (hpos : ∀ r, K.name src = some r → 0 < (c + K.held t) r)
    (h : K.Ok o (c + K.held t)) :
    K.Ok (retainObject o src) (c + K.held { entries := update t.entries i e, count }) := by
  have hstore := held_store (K := K) t i e count
  rw [hold, oneRef_none, add_zero, hname] at hstore
  rw [hstore, ← add_assoc]
  exact K.retain_ok hpos h

theorem sysDup3_ok {oldfd newfd : Handle}
    (hdup : oldfd ≠ newfd → ∀ s i g, resolve t oldfd = .ok s → dup3Target newfd = some (i, g) →
      K.DropOk (c + K.held t) (t.entries i) ∧
      (i = s → ∀ r, K.name (t.entries s) = some r → 1 < (c + K.held t) r))
    (h : K.Ok o (c + K.held t)) :
    K.Ok (sysDup3 t o oldfd newfd).2.1 (c + K.held (sysDup3 t o oldfd newfd).1) := by
  unfold sysDup3
  split_ifs with heq
  · exact h
  · cases hs : resolve t oldfd with
    | error e => exact h
    | ok s =>
      cases htgt : dup3Target newfd with
      | none => exact h
      | some ig =>
        obtain ⟨i, g⟩ := ig
        obtain ⟨hdrop, hself⟩ := hdup heq s i g hs htgt
        dsimp only
        -- First the old entry goes, and its object with it.
        have hclosed : K.Ok (if (t.entries i).Live then closeObject o (t.entries i) else o)
            (c + K.held (t.release i)) := by
          split_ifs with hlive
          · exact closeObject_release_ok hdrop h
          · have hrel := held_release (K := K) t i
            rw [K.name_free _ hlive, oneRef_none, add_zero] at hrel
            rwa [hrel]
        have hfree : K.name ((t.release i).entries i) = none :=
          K.name_free _ (by simp [HandleTable.release])
        -- The source is still referred to: by itself, or else by another entry.
        have hpos : ∀ r, K.name (t.entries s) = some r → 0 < (c + K.held (t.release i)) r := by
          intro r hr
          have hrel := congrFun (held_release (K := K) t i) r
          simp only [Pi.add_apply] at hrel hself ⊢
          by_cases his : i = s
          · subst his
            have := hself rfl r hr
            rw [hr, oneRef_some_self] at hrel
            omega
          · have : 0 < K.held (t.release i) r := held_pos (i := s) (by
              simpa [HandleTable.release, Ne.symm his] using hr)
            omega
        have hstore := retain_store_ok { t.entries s with generation := g }
          (if (t.entries i).Live then t.count else t.count + 1)
            (K.name_copy (t.entries s) (t.entries s).rights g)
          hfree hpos hclosed
        simpa only [HandleTable.release, update_idem] using hstore

theorem sysFcntl_ok (fd : Handle) (cmd arg : ℤ) (h : K.Ok o (c + K.held t)) :
    K.Ok (sysFcntl t o fd cmd arg).2.1 (c + K.held (sysFcntl t o fd cmd arg).1) := by
  unfold sysFcntl
  split_ifs
  · exact h
  · unfold fcntlDupfd
    cases hs : resolve t fd with
    | error e => exact h
    | ok s =>
      cases hi : fcntlFree t arg with
      | none => exact h
      | some i =>
        refine retain_store_ok _ _ (K.name_copy (t.entries s) (t.entries s).rights 0)
          (K.name_free _ (fcntlFree_some hi))
          (fun r hr => ?_) h
        have := held_pos (K := K) hr
        simp only [Pi.add_apply]
        omega
  · exact h

variable {ps : Procs}

/-- **Every syscall keeps the references right**, with `c` references held elsewhere. -/
theorem run_ok {p : Process} {call : LocalCall} (hcall : K.CallOk (c + K.held p.handles) p.handles call)
    (h : K.Ok o (c + K.held p.handles)) :
    K.Ok (call.run ps p o).2.1 (c + K.held (call.run ps p o).1) := by
  cases call with
  | channelCreate e0 e1 calloc =>
    simp only [LocalCall.run, sysChannelCreate]
    split_ifs with hnull
    · exact h
    · exact createPair_ok _ _ (fun hn => hcall hn (not_or.mp hnull)) h
  | pipe fds calloc =>
    simp only [LocalCall.run, sysPipe]
    split_ifs with hnull
    · exact h
    · exact createPair_ok _ _ (fun hn => hcall hn hnull) h
  | handleClose hd => exact sysHandleClose_ok hcall h
  | «open» mem path flags malloc => exact sysOpen_ok _ _ _ _ _ _ h
  | getdents64 hd buf cap malloc => exact sysGetdents64_ok _ _ _ _ _ h
  | dup3 oldfd newfd => exact sysDup3_ok hcall h
  | fcntl fd cmd arg => exact sysFcntl_ok _ _ _ h

/-! ### Fork and exit -/

/-- **A fork copies references**: the child's table, which named nothing, comes to hold what
it inherits. -/
theorem inheritHandles_ok {parent child : Table}
    (hpos : ∀ i r, K.name (parent.entries i) = some r → 0 < c r)
    (hchild : ∀ i, K.name (child.entries i) = none) (h : K.Ok o (c + K.held child)) :
    K.Ok (inheritHandles parent child o).2 (c + K.held (inheritHandles parent child o).1) := by
  -- The entries of the child that are still to come name nothing.
  refine (forLoop_induction
    (fun k (r : Table × Objects) => (∀ j : EntryIdx, k ≤ j → K.name (r.1.entries j) = none) ∧
    K.Ok r.2 (c + K.held r.1)) ⟨fun j _ => hchild j, h⟩ fun i r ih => ?_).2
  obtain ⟨hrest, hok⟩ := ih
  have hrest' : ∀ j : EntryIdx, (i : ℕ) + 1 ≤ j → K.name (r.1.entries j) = none :=
    fun j hj => hrest j (by omega)
  dsimp only
  split
  · exact ⟨hrest', hok⟩
  · split
    · refine ⟨fun j hj => ?_, retain_store_ok _ _ rfl (hrest i le_rfl) (fun ref hr => ?_) hok⟩
      · have hji : j ≠ i := fun h => by rw [h] at hj; omega
        simpa [hji] using hrest' j hj
      · have := hpos i ref hr
        simp only [Pi.add_apply]
        omega
    · exact ⟨hrest', hok⟩

theorem inheritHandles_none {parent child : Table} (o : Objects)
    (hchild : ∀ i, K.name (child.entries i) = none) (hparent : ∀ i, Inherited (parent.entries i) →
      K.name (parent.entries i) = none) (i : EntryIdx) :
    K.name ((inheritHandles parent child o).1.entries i) = none := by
  refine forLoop_inv (fun r : Table × Objects => ∀ i, K.name (r.1.entries i) = none) hchild
    (fun i r ih => ?_) i
  dsimp only
  split
  · exact ih
  · split
    · next hinh =>
      intro j
      by_cases hji : j = i
      · subst hji; simpa using hparent j hinh
      · simpa [hji] using ih j
    · exact ih

/-- **An exit drops the channels**, and leaves the table naming nothing. -/
theorem exitHandles_ok
    (hexit : ∀ i, K.name (t.entries i) ≠ none → (t.entries i).type = .channel ∧ Fits t i)
    (h : K.Ok o (c + K.held t)) : K.Ok (exitHandles t o).2 (c + K.held (exitHandles t o).1) := by
  -- The entries that are still to come are as they were.
  refine (forLoop_induction
    (fun k (r : Table × Objects) => (∀ j : EntryIdx, k ≤ j → r.1.entries j = t.entries j) ∧
    K.Ok r.2 (c + K.held r.1)) ⟨fun j _ => rfl, h⟩ fun i r ih => ?_).2
  obtain ⟨hrest, hok⟩ := ih
  have hrest' : ∀ j : EntryIdx, (i : ℕ) + 1 ≤ j → r.1.entries j = t.entries j :=
    fun j hj => hrest j (by omega)
  have hent : r.1.entries i = t.entries i := hrest i le_rfl
  dsimp only
  split
  · exact ⟨hrest', hok⟩
  · have hclosed := held_closeIgnored (K := K) (t := r.1) (i := i) rfl fun hne => by
      rw [hent] at hne ⊢
      exact (hexit i hne).2
    refine ⟨fun j hj => ?_, ?_⟩
    · have hji : j ≠ i := fun h => by rw [h] at hj; omega
      dsimp only
      rw [handleCloseIgnored_encode rfl, ← hrest' j hj]
      split_ifs
      · simp [HandleTable.release, hji]
      · rfl
    · rw [← hclosed, ← add_assoc] at hok
      by_cases hchan : (r.1.entries i).type = .channel
      · rw [if_pos hchan]
        exact K.close_ok (counted_of_ne_dir (by simp [hchan])) hok
      · -- No object is closed, and the entry names none of this kind.
        have hnone : K.name (r.1.entries i) = none := by
          by_contra hne
          rw [hent] at hne hchan
          exact hchan (hexit i hne).1
        rw [if_neg hchan]
        rwa [hnone, oneRef_none, add_zero] at hok

/-! ### The kernel -/

theorem total_set (ps : Procs) (pk : ProcKey) (q : Option Process) :
    K.total (ps.set pk q) + K.procRefs (ps.slot pk) = K.total ps + K.procRefs q := by
  funext r
  exact sumOver_update (fun q => K.procRefs q r) ps.slot pk q

/-- The references of one process, beside those of the others. -/
theorem total_eq (ps : Procs) (pk : ProcKey) :
    K.total ps = K.total (ps.set pk none) + K.procRefs (ps.slot pk) := by
  have := total_set (K := K) ps pk none
  rw [this]
  exact (add_zero _).symm

theorem total_set_some (ps : Procs) (pk : ProcKey) (p : Process) :
    K.total (ps.set pk (some p)) = K.total (ps.set pk none) + K.held p.handles := by
  have := total_eq (K := K) (ps.set pk (some p)) pk
  simp only [Procs.set, update_idem, update_self] at this
  exact this

theorem total_congr {ps' : Procs} (h : ps'.slot = ps.slot) : K.total ps' = K.total ps := by
  unfold total
  rw [h]

theorem held_eq_zero (h : ∀ i, K.name (t.entries i) = none) : K.held t = 0 := heldBy_eq_zero h

theorem name_consoleTable (i : EntryIdx) : K.name (consoleTable.entries i) = none := by
  rcases consoleTable_entries i with hfree | ⟨htype, htgt⟩
  · exact K.name_free _ hfree
  · exact K.name_console _ htgt htype

theorem destroy_ok {pk : ProcKey}
    (hnone : ∀ p, ps.slot pk = some p → ∀ i, K.name (p.handles.entries i) = none)
    (h : K.Ok o (K.total ps)) : K.Ok o (K.total (nxProcessDestroy ps pk)) := by
  have hzero : K.procRefs (ps.slot pk) = 0 := by
    cases hp : ps.slot pk with
    | none => rfl
    | some p => exact held_eq_zero (hnone p hp)
  rw [total_eq ps pk, hzero, add_zero] at h
  cases pk with
  | some i => exact h
  | none =>
    rw [nxProcessDestroy]
    cases hp : ps.slot none with
    | none =>
      dsimp only
      rwa [total_eq ps none, hzero, add_zero]
    | some p =>
      have hinit : K.held (nxHandleTableInit p.handles) = 0 :=
        held_eq_zero fun i => K.name_free _ (by simp [nxHandleTableInit, HandleEntry.Live])
      dsimp only
      rwa [total_set_some, hinit, add_zero]

theorem create_process_ok (name : Path) (malloc mmu : Bool) (h : K.Ok o (K.total ps)) :
    K.Ok o (K.total (nxProcessCreate ps name malloc mmu).1) := by
  rcases nxProcessCreate_eq ps name malloc mmu with ⟨n, -, heq⟩ | ⟨i, hi, -, heq⟩ <;> rw [heq]
  · exact h
  · rw [total_set_some, held_eq_zero name_consoleTable]
    rw [total_eq ps (some i), hi] at h
    exact h

theorem sysFork_ok {k : Kernel} {pk : ProcKey} {malloc mmu task : Bool} {parent : Process}
    (hparent : k.procs.slot pk = some parent)
    (hfail : malloc = true → mmu = true → task = false → k.procs.firstFree ≠ none →
      ∀ i, Inherited (parent.handles.entries i) → K.name (parent.handles.entries i) = none)
    (h : K.Ok k.objs (K.total k.procs)) :
    K.Ok (sysFork k pk malloc mmu task).1.objs (K.total (sysFork k pk malloc mmu task).1.procs) := by
  rcases sysFork_cases hparent malloc mmu task with ⟨-, hslot, hobjs⟩ | ⟨i, child, hck, hi, hchild,
    hslot, hobjs⟩
  · rwa [total_congr hslot, hobjs]
  · -- Without the child the processes are those there were before.
    have hothers : K.total (k.procs.set (some i) none) = K.total k.procs :=
      total_congr (by rw [Procs.set, ← hi, update_eq_self])
    have hpos : ∀ j r, K.name (parent.handles.entries j) = some r → 0 < K.total k.procs r := by
      intro j r hr
      have := held_pos (K := K) hr
      rw [total_eq k.procs pk, hparent, procRefs, Pi.add_apply]
      omega
    have hinherit : K.Ok (inheritHandles parent.handles consoleTable k.objs).2
        (K.total k.procs + K.held (inheritHandles parent.handles consoleTable k.objs).1) :=
      inheritHandles_ok hpos name_consoleTable (by rwa [held_eq_zero name_consoleTable, add_zero])
    have htotal : K.total (sysFork k pk malloc mmu task).1.procs =
        K.total (k.procs.set (some i) (if task then some child else none)) := total_congr hslot
    rw [hobjs, htotal]
    cases task with
    | true =>
      rw [if_pos rfl, total_set_some, hothers, hchild]
      exact hinherit
    | false =>
      obtain ⟨hmalloc, hmmu, hfree⟩ := nxProcessFork_some k.procs parent malloc mmu (by simp [hck])
      have hnone := inheritHandles_none k.objs name_consoleTable (hfail hmalloc hmmu rfl hfree)
      rw [held_eq_zero hnone, add_zero] at hinherit
      simp only [Bool.false_eq_true, if_false]
      rwa [hothers]

/-- **Every step of the kernel keeps the references right.** -/
theorem step {k : Kernel} {op : KOp} (hop : K.StepOk k op) (h : K.Ok k.objs (K.total k.procs)) :
    K.Ok (knext k op).objs (K.total (knext k op).procs) := by
  unfold knext
  cases op with
  | call pk c =>
    simp only [kstep]
    cases hrun : k.running pk with
    | none => exact h
    | some p =>
      have hcall := hop p hrun
      rw [total_eq k.procs pk, running_slot hrun] at h hcall
      dsimp only
      rw [total_set_some]
      exact run_ok hcall h
  | fork pk malloc mmu task =>
    simp only [kstep]
    cases hrun : k.running pk with
    | none => exact h
    | some p => exact sysFork_ok (running_slot hrun) (fun h₁ h₂ h₃ h₄ => hop h₁ h₂ h₃ h₄ p hrun) h
  | exit pk code =>
    simp only [kstep]
    cases hrun : k.running pk with
    | none => exact h
    | some p =>
      rw [total_eq k.procs pk, running_slot hrun] at h
      simp only [nxProcessExit, running_slot hrun]
      rw [total_set_some]
      dsimp only
      exact exitHandles_ok (hop p hrun) h
  | destroy pk =>
    simp only [kstep]
    exact destroy_ok hop h
  | create name malloc mmu =>
    simp only [kstep]
    exact create_process_ok name malloc mmu h

theorem total_boot (files : Fin 32 → Option RamfsFile) : K.total (bootKernel files).procs = 0 := by
  funext r
  refine sumOver_eq_zero_iff.mpr fun pk => ?_
  have hempty : K.held kernelProcess.handles = 0 :=
    held_eq_zero fun i => K.name_free _ (by simp [kernelProcess, HandleEntry.Live])
  cases pk with
  | none => exact congrFun hempty r
  | some i => rfl

/-- **Every run that meets the condition keeps the references right**, in every state it
reaches. -/
theorem run {files : Fin 32 → Option RamfsFile} {ops pre : List KOp}
    (hok : RunOk knext K.StepOk (bootKernel files) ops) (hpre : pre <+: ops)
    (hboot : K.Ok (bootKernel files).objs 0) :
    K.Ok (runFrom knext (bootKernel files) pre).objs
      (K.total (runFrom knext (bootKernel files) pre).procs) := by
  obtain ⟨post, rfl⟩ := hpre
  refine (runOk_append.mp hok).1.inv (fun k : Kernel => K.Ok k.objs (K.total k.procs))
    (fun k op => step) ?_
  rwa [total_boot]

end RefKind

end Nonux.Syscall
