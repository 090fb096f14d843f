import Nonux.Components.Procfs

/-!
# The vfs component (`components/vfs_simple/vfs_simple.c`)

Every open goes through a wrapper from a fixed pool, which remembers the filesystem
the path belongs to and the id that filesystem gave. The wrapper has a reference
count, and so has the filesystem's own open; `vfs_simple` moves the two together.

`VfsMatches v c` says that the three levels agree when `c` references are held to each
vfs id: a wrapper in use has that count, its filesystem's open has the same, every
open is wrapped, and no two wrappers share one. `open`, `retain` and `close` keep it.

The components are fixed: the two filesystem slots are bound for the whole run.
-/

namespace Nonux.Components

open Nonux.Framework Nonux.Lib Nonux.Syscall Function

/-- The slots `mount_for_path` chooses from: `filesystem.root` and `filesystem.proc`. -/
inductive Mount where
  | root
  | proc
  deriving DecidableEq, Repr

/-- `struct vfs_simple_open`, but for its reference count. -/
structure VfsOpen where
  mount : Mount
  driverId : UInt32
  deriving DecidableEq, Repr

/-- The vfs (`VFS_SIMPLE_MAX_OPEN` wrappers) and the filesystems below it. -/
structure Vfs where
  wrappers : RefPool 108 VfsOpen := RefPool.empty
  ramfs : RamfsState := {}
  procfs : ProcfsState := {}

/-- `mount_for_path`. -/
def mountForPath (path : Path) : Mount :=
  if path.take 5 = procPath ∧ (path[5]? = none ∨ path[5]? = some slash) then .proc else .root

/-! ### The filesystem below (`framework/fs_call.c`) -/

/-- `nx_fs_open`. -/
def nxFsOpen (v : Vfs) (ps : Procs) (m : Mount) (path : Path) (flags : UInt32) : Vfs × UInt32 :=
  match m with
  | .root => let r := ramfsOpOpen v.ramfs path flags; ({ v with ramfs := r.1 }, r.2)
  | .proc => let r := procfsOpOpen v.procfs ps path flags; ({ v with procfs := r.1 }, r.2)

/-- `nx_fs_close`. -/
def nxFsClose (v : Vfs) (m : Mount) (id : UInt32) : Vfs :=
  match m with
  | .root => { v with ramfs := ramfsOpClose v.ramfs id }
  | .proc => { v with procfs := procfsOpClose v.procfs id }

/-- `nx_fs_retain`. -/
def nxFsRetain (v : Vfs) (m : Mount) (id : UInt32) : Vfs :=
  match m with
  | .root => { v with ramfs := ramfsOpRetain v.ramfs id }
  | .proc => { v with procfs := procfsOpRetain v.procfs id }

/-- `nx_fs_readdir`. -/
def nxFsReaddir (v : Vfs) (ps : Procs) (m : Mount) (dirPath : Path) (cookie : UInt32) :
    Except Err Dirent :=
  match m with
  | .root => ramfsOpReaddir v.ramfs dirPath cookie
  | .proc => procfsOpReaddir ps dirPath cookie

/-- `nx_fs_stat`. -/
def nxFsStat (v : Vfs) (ps : Procs) (m : Mount) (path : Path) : Except Err FsStat :=
  match m with
  | .root => ramfsOpStat v.ramfs path
  | .proc => procfsOpStat ps path

/-! ### The operations -/

/-- `vfs_simple_open`. The id 0 is failure. The wrapper is claimed before the
filesystem is asked and given back if that fails. -/
def vfsSimpleOpen (v : Vfs) (ps : Procs) (path : Path) (flags : UInt32) : Vfs × UInt32 :=
  if path.head? ≠ some slash then (v, 0)
  else
    match v.wrappers.firstFree with
    | none => (v, 0)
    | some i =>
      let m := mountForPath path
      let r := nxFsOpen v ps m path flags
      if r.2 = 0 then (r.1, 0)
      else
        ({ r.1 with wrappers := update r.1.wrappers i (some ⟨1, { mount := m, driverId := r.2 }⟩) },
          idxToId i)

/-- The wrapper `vfs_simple_id_to_wrap` finds. -/
def vfsSimpleIdToWrap (v : Vfs) (id : UInt32) : Option (RefSlot VfsOpen) :=
  (idToIdx 108 id).bind v.wrappers

/-- `vfs_simple_close`. -/
def vfsSimpleClose (v : Vfs) (id : UInt32) : Vfs :=
  match vfsSimpleIdToWrap v id with
  | none => v
  | some w =>
    let v := nxFsClose v w.val.mount w.val.driverId
    { v with wrappers := v.wrappers.closeId id }

/-- `vfs_simple_retain`. -/
def vfsSimpleRetain (v : Vfs) (id : UInt32) : Vfs :=
  match vfsSimpleIdToWrap v id with
  | none => v
  | some w =>
    let v := nxFsRetain v w.val.mount w.val.driverId
    { v with wrappers := v.wrappers.retainId id }

/-- `vfs_simple_readdir`. -/
def vfsSimpleReaddir (v : Vfs) (ps : Procs) (dirPath : Path) (cookie : UInt32) : Except Err Dirent :=
  if dirPath.head? ≠ some slash then .error .einval else nxFsReaddir v ps (mountForPath dirPath)
    dirPath cookie

/-- `vfs_simple_stat`. -/
def vfsSimpleStat (v : Vfs) (ps : Procs) (path : Path) : Except Err FsStat :=
  if path.head? ≠ some slash then .error .einval else nxFsStat v ps (mountForPath path) path

/-! ### The filesystem's counts -/

/-- The reference count of an open of the filesystem `m`, if it is in use. -/
def Vfs.driverRefs (v : Vfs) (m : Mount) (id : UInt32) : Option ℕ :=
  match m with
  | .root => v.ramfs.opens.refsOf id
  | .proc => v.procfs.opens.refsOf id

theorem driverRefs_nxFsRetain (v : Vfs) (m m' : Mount) (id id' : UInt32) :
    (nxFsRetain v m id).driverRefs m' id' =
      if m' = m ∧ id' = id then (v.driverRefs m id).map (· + 1) else v.driverRefs m' id' := by
  cases m <;> cases m' <;>
    simp [nxFsRetain, Vfs.driverRefs, ramfsOpRetain, procfsOpRetain, RefPool.refsOf_retainId]

theorem driverRefs_nxFsClose (v : Vfs) (m m' : Mount) (id id' : UInt32) :
    (nxFsClose v m id).driverRefs m' id' =
      if m' = m ∧ id' = id then (v.driverRefs m id).bind (fun k => if 1 < k then some (k - 1) else none)
      else v.driverRefs m' id' := by
  cases m <;> cases m' <;>
    simp [nxFsClose, Vfs.driverRefs, ramfsOpClose, procfsOpClose, RefPool.refsOf_closeId]

theorem wrappers_nxFsRetain (v : Vfs) (m : Mount) (id : UInt32) :
    (nxFsRetain v m id).wrappers = v.wrappers := by
  cases m <;> rfl

theorem wrappers_nxFsClose (v : Vfs) (m : Mount) (id : UInt32) :
    (nxFsClose v m id).wrappers = v.wrappers := by
  cases m <;> rfl

theorem wrappers_nxFsOpen (v : Vfs) (ps : Procs) (m : Mount) (path : Path) (flags : UInt32) :
    (nxFsOpen v ps m path flags).1.wrappers = v.wrappers := by cases m <;> rfl

/-- A filesystem's open fails and changes no count, or gives a free id its first reference. -/
theorem driverRefs_nxFsOpen (v : Vfs) (ps : Procs) (m : Mount) (path : Path) (flags : UInt32) :
    ((nxFsOpen v ps m path flags).2 = 0 ∧ (nxFsOpen v ps m path flags).1.driverRefs = v.driverRefs) ∨
      (nxFsOpen v ps m path flags).2 ≠ 0 ∧ v.driverRefs m (nxFsOpen v ps m path flags).2 = none ∧
        ∀ m' id', (nxFsOpen v ps m path flags).1.driverRefs m' id' =
          if m' = m ∧ id' = (nxFsOpen v ps m path flags).2 then some 1 else v.driverRefs m' id' := by
  cases m with
  | root =>
    rcases (ramfsOpOpen_cases v.ramfs path flags).refsOf (by decide)
      with ⟨hid, hrefs⟩ | ⟨hne, hnone, hrefs⟩
    · exact .inl ⟨hid, funext fun m' => by cases m' <;> [exact hrefs; rfl]⟩
    · exact .inr ⟨hne, hnone, fun m' id' => by cases m' <;> simp [nxFsOpen, Vfs.driverRefs, hrefs]⟩
  | proc =>
    rcases (procfsOpOpen_cases v.procfs ps path flags).refsOf (by decide)
      with ⟨hid, hrefs⟩ | ⟨hne, hnone, hrefs⟩
    · exact .inl ⟨hid, funext fun m' => by cases m' <;> [rfl; exact hrefs]⟩
    · exact .inr ⟨hne, hnone, fun m' id' => by cases m' <;> simp [nxFsOpen, Vfs.driverRefs, hrefs]⟩

/-! ### The three levels agree -/

/-- The vfs and its filesystems are as they should be when each vfs id has the number `c`
says of references. -/
structure VfsMatches (v : Vfs) (c : UInt32 → ℕ) : Prop where
  /-- A wrapper has the count of its id, and is free without references. -/
  counts : v.wrappers.Counts c
  /-- A wrapper's filesystem open has the wrapper's count. -/
  drivers : ∀ i w, v.wrappers i = some w → v.driverRefs w.val.mount w.val.driverId = some w.refs
  /-- Every filesystem open in use is wrapped. -/
  wrapped : ∀ m id n, v.driverRefs m id = some n → ∃ i w, v.wrappers i = some w ∧ w.val = ⟨m, id⟩
  /-- No two wrappers share an open. -/
  apart : ∀ i j w w', v.wrappers i = some w → v.wrappers j = some w' → w.val = w'.val → i = j

theorem vfsMatches_empty (files : Fin 32 → Option RamfsFile) : VfsMatches { ramfs := { files } } 0 where
  counts := RefPool.counts_empty
  drivers := fun i w h => by simp [RefPool.empty] at h
  wrapped := fun m id n h => by
    cases m <;> simp [Vfs.driverRefs, RefPool.refsOf, RefPool.empty] at h
  apart := fun i j w w' h => by simp [RefPool.empty] at h

variable {v : Vfs} {c : UInt32 → ℕ} {id : UInt32}

/-- What the wrapper of an id that is referred to looks like. -/
theorem VfsMatches.wrapper (h : VfsMatches v c) (hid : 0 < c id) :
    ∃ i w, id = idxToId i ∧ v.wrappers i = some w ∧ w.refs = c id ∧ vfsSimpleIdToWrap v id = some w := by
  obtain ⟨i, w, rfl, hw, hrefs⟩ := h.counts.inUse (by decide) hid
  exact ⟨i, w, rfl, hw, hrefs,
    by rw [vfsSimpleIdToWrap, (idToIdx_eq_some_iff (by decide)).mpr rfl]; exact hw⟩

/-- The wrappers other than `i`, of which a change to `i`'s open says nothing. -/
theorem VfsMatches.driver_ne (h : VfsMatches v c) {i j : Fin 108} {w w' : RefSlot VfsOpen}
    (hi : v.wrappers i = some w) (hj : v.wrappers j = some w') (hji : j ≠ i) :
    ¬ (w'.val.mount = w.val.mount ∧ w'.val.driverId = w.val.driverId) := by
  rintro ⟨hm, hd⟩
  refine hji (h.apart j i w' w hj hi ?_)
  cases hw : w.val
  cases hw' : w'.val
  simp_all

/-- Move the counts of one wrapper and of its open to `n`, or free both. -/
theorem VfsMatches.move {v' : Vfs} {c' : UInt32 → ℕ} {i : Fin 108} {w : RefSlot VfsOpen}
    (h : VfsMatches v c) (hi : v.wrappers i = some w) (n : Option ℕ)
    (hw : v'.wrappers = update v.wrappers i (n.map fun k => { w with refs := k }))
    (hd : ∀ m id, v'.driverRefs m id =
      if m = w.val.mount ∧ id = w.val.driverId then n else v.driverRefs m id)
    (hc : v'.wrappers.Counts c') : VfsMatches v' c' := by
  -- A wrapper after the move was one before, of the same open, and has its count moved with it.
  have hback : ∀ j w', v'.wrappers j = some w' →
      (j = i ∧ w'.val = w.val ∧ n = some w'.refs) ∨ (j ≠ i ∧ v.wrappers j = some w') := by
    intro j w' hj
    rw [hw] at hj
    by_cases hji : j = i
    · subst hji
      simp only [update_self, Option.map_eq_some_iff] at hj
      obtain ⟨k, hk, rfl⟩ := hj
      exact .inl ⟨rfl, rfl, hk⟩
    · exact .inr ⟨hji, by rwa [update_of_ne hji] at hj⟩
  have hval : ∀ j w', v'.wrappers j = some w' → ∃ w'', v.wrappers j = some w'' ∧ w''.val = w'.val := by
    intro j w' hj
    rcases hback j w' hj with ⟨rfl, hv, -⟩ | ⟨-, hj'⟩
    · exact ⟨w, hi, hv.symm⟩
    · exact ⟨w', hj', rfl⟩
  refine ⟨hc, fun j w' hj => ?_, fun m id k hk => ?_, fun j j' w₁ w₂ h₁ h₂ heq => ?_⟩
  · rw [hd]
    rcases hback j w' hj with ⟨rfl, hv, hn⟩ | ⟨hji, hj'⟩
    · rw [hv, if_pos ⟨rfl, rfl⟩, hn]
    · rw [if_neg (h.driver_ne hi hj' hji)]
      exact h.drivers j w' hj'
  · rw [hd] at hk
    split_ifs at hk with hmatch
    · obtain ⟨rfl, rfl⟩ := hmatch
      exact ⟨i, { w with refs := k }, by rw [hw, update_self, hk]; rfl, rfl⟩
    · obtain ⟨j, w', hj, hw'⟩ := h.wrapped m id k hk
      have hji : j ≠ i := by
        rintro rfl
        rw [hi, Option.some.injEq] at hj
        subst hj
        exact hmatch (by rw [hw']; exact ⟨rfl, rfl⟩)
      exact ⟨j, w', by rw [hw, update_of_ne hji]; exact hj, hw'⟩
  · obtain ⟨w₁', h₁', e₁⟩ := hval j w₁ h₁
    obtain ⟨w₂', h₂', e₂⟩ := hval j' w₂ h₂
    exact h.apart j j' w₁' w₂' h₁' h₂' (by rw [e₁, e₂, heq])

/-- `retain` adds a reference to an id that has one, at all three levels. -/
theorem VfsMatches.retain (h : VfsMatches v c) (hid : 0 < c id) :
    VfsMatches (vfsSimpleRetain v id) (c + oneRef (some id)) := by
  obtain ⟨i, w, rfl, hi, -, hwrap⟩ := h.wrapper hid
  have hwrappers : (vfsSimpleRetain v (idxToId i)).wrappers = v.wrappers.retainId (idxToId i) := by
    simp only [vfsSimpleRetain, hwrap, wrappers_nxFsRetain]
  refine h.move hi (some (w.refs + 1)) ?_ (fun m id => ?_) ?_
  · rw [hwrappers, RefPool.retainId_idxToId (by decide) hi]; rfl
  · have hdriver := h.drivers i w hi
    simp only [vfsSimpleRetain, hwrap]
    change (nxFsRetain v w.val.mount w.val.driverId).driverRefs m id = _
    rw [driverRefs_nxFsRetain, hdriver]; rfl
  · rw [hwrappers]
    exact h.counts.retain (by decide) hid

/-- `close` drops a reference that is held, and with the last one frees the wrapper and
the filesystem's open. -/
theorem VfsMatches.close (h : VfsMatches v (c + oneRef (some id))) :
    VfsMatches (vfsSimpleClose v id) c := by
  have hpos : 0 < (c + oneRef (some id)) id := by simp
  obtain ⟨i, w, rfl, hi, -, hwrap⟩ := h.wrapper hpos
  have hwrappers : (vfsSimpleClose v (idxToId i)).wrappers = v.wrappers.closeId (idxToId i) := by
    simp only [vfsSimpleClose, hwrap, wrappers_nxFsClose]
  refine h.move hi (if 1 < w.refs then some (w.refs - 1) else none) ?_ (fun m id => ?_) ?_
  · rw [hwrappers, RefPool.closeId_idxToId (by decide) hi]
    split_ifs <;> rfl
  · have hdriver := h.drivers i w hi
    simp only [vfsSimpleClose, hwrap]
    change (nxFsClose v w.val.mount w.val.driverId).driverRefs m id = _
    rw [driverRefs_nxFsClose, hdriver]; rfl
  · rw [hwrappers]
    exact h.counts.close (by decide)

theorem VfsMatches.congr {v' : Vfs} (h : VfsMatches v c) (hw : v'.wrappers = v.wrappers)
    (hd : v'.driverRefs = v.driverRefs) : VfsMatches v' c :=
  ⟨by rw [hw]; exact h.counts, by rw [hw, hd]; exact h.drivers, by rw [hw, hd]; exact h.wrapped,
    by rw [hw]; exact h.apart⟩

/-- A free wrapper takes a new open. -/
theorem VfsMatches.wrap {v' : Vfs} {i : Fin 108} {m : Mount} {d : UInt32} (h : VfsMatches v c)
    (hi : v.wrappers i = none) (hnone : v.driverRefs m d = none)
    (hw : v'.wrappers = update v.wrappers i (some ⟨1, ⟨m, d⟩⟩))
    (hd : ∀ m' id, v'.driverRefs m' id = if m' = m ∧ id = d then some 1 else v.driverRefs m' id) :
    VfsMatches v' (c + oneRef (some (idxToId i))) := by
  -- The new open was free, so no wrapper in use before is of it.
  have hother : ∀ j w, v.wrappers j = some w → ¬ (w.val.mount = m ∧ w.val.driverId = d) := by
    rintro j w hj ⟨rfl, rfl⟩
    rw [h.drivers j w hj] at hnone
    exact absurd hnone (by simp)
  have hback : ∀ j w, v'.wrappers j = some w → (j = i ∧ w = ⟨1, ⟨m, d⟩⟩) ∨ v.wrappers j = some w := by
    intro j w hj
    rw [hw] at hj
    by_cases hji : j = i
    · subst hji
      rw [update_self, Option.some.injEq] at hj
      exact .inl ⟨rfl, hj.symm⟩
    · exact .inr (by rwa [update_of_ne hji] at hj)
  refine ⟨by rw [hw]; exact h.counts.alloc (by decide) hi, fun j w hj => ?_, fun m' id k hk => ?_,
    fun j j' w w' hj hj' heq => ?_⟩
  · rw [hd]
    rcases hback j w hj with ⟨-, rfl⟩ | hj
    · rw [if_pos ⟨rfl, rfl⟩]
    · rw [if_neg (hother j w hj)]
      exact h.drivers j w hj
  · rw [hd] at hk
    split_ifs at hk with hnew
    · obtain ⟨rfl, rfl⟩ := hnew
      exact ⟨i, _, by rw [hw, update_self], rfl⟩
    · obtain ⟨j, w, hj, hv⟩ := h.wrapped m' id k hk
      have hji : j ≠ i := by rintro rfl; rw [hi] at hj; exact absurd hj (by simp)
      exact ⟨j, w, by rw [hw, update_of_ne hji]; exact hj, hv⟩
  · rcases hback j w hj with ⟨rfl, rfl⟩ | hj <;> rcases hback j' w' hj' with ⟨rfl, rfl⟩ | hj'
    · rfl
    · exact absurd (by rw [← heq]; exact ⟨rfl, rfl⟩) (hother j' w' hj')
    · exact absurd (by rw [heq]; exact ⟨rfl, rfl⟩) (hother j w hj)
    · exact h.apart j j' w w' hj hj' heq

/-- `open` fails and changes no count, or returns an id with its first reference. -/
theorem VfsMatches.open (h : VfsMatches v c) (ps : Procs) (path : Path) (flags : UInt32) :
    ((vfsSimpleOpen v ps path flags).2 = 0 ∧ VfsMatches (vfsSimpleOpen v ps path flags).1 c) ∨
      (vfsSimpleOpen v ps path flags).2 ≠ 0 ∧
        VfsMatches (vfsSimpleOpen v ps path flags).1
        (c + oneRef (some (vfsSimpleOpen v ps path flags).2)) := by
  by_cases habs : path.head? = some slash
  swap
  · exact .inl (by simp [vfsSimpleOpen, habs, h])
  cases hfree : v.wrappers.firstFree with
  | none => exact .inl (by simp [vfsSimpleOpen, hfree, h])
  | some i =>
    have hi : v.wrappers i = none := by simpa using List.find?_some hfree
    have hwr := wrappers_nxFsOpen v ps (mountForPath path) path flags
    rcases driverRefs_nxFsOpen v ps (mountForPath path) path flags
      with ⟨hzero, hsame⟩ | ⟨hne, hnone, hdr⟩
    · -- The filesystem refused, and moved no count.
      have hopen : vfsSimpleOpen v ps path flags =
          ((nxFsOpen v ps (mountForPath path) path flags).1, 0) := by
        simp [vfsSimpleOpen, habs, hfree, hzero]
      rw [hopen]
      exact .inl ⟨rfl, h.congr hwr hsame⟩
    · have hopen : (vfsSimpleOpen v ps path flags).2 = idxToId i := by
        simp [vfsSimpleOpen, habs, hfree, hne]
      rw [hopen]
      refine .inr ⟨idxToId_ne_zero (by decide) i, h.wrap hi hnone ?_ fun m' id => ?_⟩
      · simp [vfsSimpleOpen, habs, hfree, hne, hwr]
      · rw [← hdr]
        cases m' <;> simp [vfsSimpleOpen, habs, hfree, hne, Vfs.driverRefs]

end Nonux.Components
