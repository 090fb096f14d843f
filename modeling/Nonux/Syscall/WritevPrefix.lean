import Mathlib.Data.List.GetD
import Nonux.Syscall.IoObjects

/-!
# Writes of several buffers (`framework/syscall.c`)

`sys_writev` writes one buffer after the other, each time with a `sys_write`, which takes 256 bytes
of it at most, and stops at the first that was not written whole. `Transferred` says which bytes an
object has got; a write adds a first part of the buffer to them (`transferred_writeObj`), and the
loop puts these together (`iovLoop_transfers`). `writev_transfers_prefix` is what comes of it: the
object has got the first bytes of the buffers, laid end to end, as many as the result says.
-/

namespace Nonux.Syscall.Io

open Nonux.Framework Nonux.Components Nonux.Lib Nonux.Syscall.UserAccess List

/-! ### What an object has got -/

/-- Where the next byte is written: at the end, for files that were opened for appending. -/
def RamfsFd.position (f : RamfsFd) : ℕ := if f.flags &&& nxFsOpenAppend ≠ 0 then f.size else f.cursor

/-- The object has got these bytes, and is the same but for that. -/
inductive Transferred : IoObject → IoObject → List UInt8 → Prop
  /-- Nothing was written. -/
  | same (obj : IoObject) : Transferred obj obj []
  /-- The other end of the channel has new messages, none of them empty. -/
  | channel {ch ch' : RingChannel} {side : Fin 2} (ms : List (List UInt8)) (hne : [] ∉ ms)
      (hq : (ch'.peerOf side).messages = (ch.peerOf side).messages ++ ms)
      (hpeer : (ch'.peerOf side).toChannelEndpoint = (ch.peerOf side).toChannelEndpoint)
      (hown : ch'.e side = ch.e side) : Transferred (.channel ch side) (.channel ch' side) ms.flatten
  /-- The bytes are in the file, from the position on. -/
  | ramfs {f f' : RamfsFd} {bytes : List UInt8} (hflags : f'.flags = f.flags)
      (hdata : f'.data = splice f.data f.position bytes)
      (hsize : f'.size = if bytes = [] then f.size else max f.size (f.position + bytes.length))
      (hposition : f'.position = f.position + bytes.length) : Transferred (.ramfs f) (.ramfs f') bytes

theorem splice_nil (data : ℕ → UInt8) (start : ℕ) : splice data start [] = data := by
  funext i
  simp [splice]

/-- Bytes written one after the other. -/
theorem splice_append (data : ℕ → UInt8) (start : ℕ) (a b : List UInt8) :
    splice (splice data start a) (start + a.length) b = splice data start (a ++ b) := by
  funext i
  unfold splice
  rw [length_append]
  by_cases hb : start + a.length ≤ i ∧ i < start + a.length + b.length
  · rw [if_pos hb, if_pos (by omega), getD_append_right _ _ _ _ (by omega)]
    congr 1
    omega
  · rw [if_neg hb]
    by_cases ha : start ≤ i ∧ i < start + a.length
    · rw [if_pos ha, if_pos (by omega), getD_append _ _ _ _ (by omega)]
    · rw [if_neg ha, if_neg (by omega)]

/-- What was got first and what was got then. -/
theorem Transferred.trans {a b c : IoObject} {x y : List UInt8} (hx : Transferred a b x)
    (hy : Transferred b c y) : Transferred a c (x ++ y) := by
  cases hx with
  | same => exact hy
  | @channel ch ch' side ms hne hq hpeer hown =>
    cases hy with
    | same =>
      rw [append_nil]
      exact .channel ms hne hq hpeer hown
    | @channel _ ch'' _ ms' hne' hq' hpeer' hown' =>
      rw [← flatten_append]
      refine .channel (ms ++ ms') ?_ ?_ (hpeer'.trans hpeer) (hown'.trans hown)
      · rw [mem_append]
        exact not_or.2 ⟨hne, hne'⟩
      · rw [hq', hq, append_assoc]
  | @ramfs f f' _ hflags hdata hsize hposition =>
    cases hy with
    | same =>
      rw [append_nil]
      exact .ramfs hflags hdata hsize hposition
    | @ramfs _ f'' _ hflags' hdata' hsize' hposition' =>
      refine .ramfs (hflags'.trans hflags) ?_ ?_ ?_
      · rw [hdata', hdata, hposition, splice_append]
      · rw [hsize', hsize, hposition, length_append]
        by_cases hxn : x = []
        · subst hxn
          simp
        · by_cases hyn : y = []
          · subst hyn
            simp [hxn]
          · simp only [hxn, hyn, ↓reduceIte, append_eq_nil_iff, false_and]
            omega
      · rw [hposition', hposition, length_append, Nat.add_assoc]

namespace IoState

variable {s : IoState} {vs : List (Addr × UInt64)}

/-! ### One write -/

/-- `ramfs_op_write` transfers a first part of the bytes, or nothing if it fails. -/
theorem transferred_ramfsOpWrite (f : RamfsFd) {bytes : List UInt8} (hne : bytes ≠ []) :
    match (ramfsOpWrite f bytes).2 with
    | .ok n => n ≤ bytes.length ∧ Transferred (.ramfs f) (.ramfs (ramfsOpWrite f bytes).1) (bytes.take n)
    | .error _ => Transferred (.ramfs f) (.ramfs (ramfsOpWrite f bytes).1) [] := by
  unfold ramfsOpWrite
  rw [if_neg hne]
  by_cases hflags : f.flags &&& nxFsOpenWrite = 0
  · rw [if_pos hflags]
    exact .same _
  rw [if_neg hflags]
  -- Where the bytes go, and that nothing else depends on whether they are appended.
  generalize hf₁ : (if f.flags &&& nxFsOpenAppend ≠ 0 then { f with cursor := f.size } else f) = f₁
  have hcursor : f₁.cursor = f.position := by
    rw [← hf₁, RamfsFd.position]
    split_ifs <;> rfl
  have hsame : f₁.flags = f.flags ∧ f₁.data = f.data ∧ f₁.size = f.size := by
    rw [← hf₁]
    split_ifs <;> exact ⟨rfl, rfl, rfl⟩
  obtain ⟨hflags₁, hdata₁, hsize₁⟩ := hsame
  have happend : f.flags &&& nxFsOpenAppend ≠ 0 → f₁.cursor = f.size := by
    rw [hcursor, RamfsFd.position]
    exact fun h => if_pos h
  dsimp only
  by_cases hroom : ramfsFileCap - f₁.cursor = 0
  · rw [if_pos hroom]
    refine .ramfs hflags₁ (by rw [splice_nil, hdata₁]) (by simpa using hsize₁) ?_
    rw [RamfsFd.position, hflags₁, hsize₁, hcursor, RamfsFd.position]
    split_ifs <;> rfl
  · rw [if_neg hroom]
    have hlen : (bytes.take (min bytes.length (ramfsFileCap - f₁.cursor))).length =
        min bytes.length (ramfsFileCap - f₁.cursor) := by simp
    have hpos : bytes.length ≠ 0 := fun h => hne (length_eq_zero_iff.1 h)
    refine ⟨min_le_left _ _, .ramfs hflags₁ (by rw [hdata₁, hcursor]) ?_ ?_⟩
    · rw [if_neg (by rw [← length_eq_zero_iff, hlen]; omega), hlen, hsize₁, ← hcursor]
    · rw [hlen, RamfsFd.position, ← hcursor]
      dsimp only
      rw [hflags₁]
      split_ifs with happ
      · have := happend happ
        omega
      · rfl

/-- A write to a file or a channel transfers a first part of the bytes, or nothing if it fails. -/
theorem transferred_writeObj {obj : IoObject} (hobj : obj.isConsole = false) {bytes : List UInt8}
    (hne : bytes ≠ []) : match (writeObj obj bytes).2 with
    | .ok n => n ≤ bytes.length ∧ Transferred obj (writeObj obj bytes).1 (bytes.take n)
    | .error _ => Transferred obj (writeObj obj bytes).1 [] := by
  cases obj with
  | channel ch side =>
    have hmoves := RingChannel.nxChannelSend_moves ch side bytes
    simp only [writeObj]
    generalize ch.nxChannelSend (some side) (some bytes) = r at hmoves
    cases hmoves with
    | refused e => exact .same _
    | sent hopen hpeer hq hsame =>
      refine ⟨le_rfl, ?_⟩
      have hmessage : bytes.take bytes.length = [bytes].flatten := by simp
      rw [hmessage]
      exact .channel [bytes] (by simpa using hne.symm) (by simpa using hq) (by simpa using hsame)
        (by simp)
  | ramfs f => exact transferred_ramfsOpWrite f hne
  | procfs f => exact .same _
  | stale => exact .same _
  | dir => exact .same _
  | console c => cases hobj

/-! ### `sys_write` -/

theorem length_bytesAt (s : IoState) (p : Addr) (n : ℕ) : (s.bytesAt p n).length = n := by simp [bytesAt]

theorem take_bytesAt (s : IoState) (p : Addr) {k n : ℕ} (h : k ≤ n) :
    (s.bytesAt p n).take k = s.bytesAt p k := by
  simp [bytesAt, ← map_take, take_range, h]

/-- What writing comes to, once everything is found to be good for it: the bytes of the caller go to
the object. -/
def writeFrom (s : IoState) (buf : Addr) (n : ℕ) : IoState × ℤ :=
  ({ s with obj := (writeObj s.obj (s.bytesAt buf n)).1 },
    (writeReply (writeObj s.obj (s.bytesAt buf n)).2).rc)

theorem run_sysWrite (s : IoState) (h : Handle) (buf : Addr) (len : UInt64) :
    Prog.run step (sysWrite h buf len) s =
      if len = 0 then (s, 0)
      else
        match s.rights with
        | .error e => (s, e.code)
        | .ok rights =>
          if rights &&& nxRightWrite ≠ nxRightWrite then (s, Err.eperm.code)
          else if s.obj.type = .dir then (s, Err.einval.code)
          else
            match userRangeCheck buf (min len ioMax) with
            | .error e => (s, e.code)
            | .ok () => s.writeFrom buf (readCap len) := by
  unfold sysWrite
  by_cases hlen : len = 0
  · simp [hlen]
  simp only [hlen, ↓reduceIte, Prog.run_bind, run_entry]
  cases hrights : s.rights with
  | error e => simp [view, hrights, Except.map]
  | ok rights =>
    simp only [view, hrights, Except.map]
    by_cases hwrite : rights &&& nxRightWrite ≠ nxRightWrite
    · simp [hwrite]
    simp only [hwrite, ↓reduceIte]
    by_cases hdir : s.obj.type = .dir
    · simp [hdir]
    have htype : s.obj.type = .channel ∨ s.obj.type = .resource := by
      cases hobj : s.obj <;> simp_all [IoObject.type]
    simp only [htype, hdir, ↓reduceIte, Prog.run_bind, run_copyFromUser]
    cases hcheck : userRangeCheck buf (min len ioMax) with
    | error e => rfl
    | ok u =>
      simp only [Except.map, Prog.run_bind, run_kernel, Prog.run_pure]
      -- Whatever function is called, it writes to the object.
      split_ifs <;> rfl

/-- **One buffer**: a first part of it is transferred, as long as the result says, or nothing. -/
theorem sysWrite_transfers (h : Handle) (hobj : s.obj.isConsole = false) {v : Addr × UInt64}
    (hv : v.2 ≠ 0) :
    let r := Prog.run step (sysWrite h v.1 v.2) s
    r.1.mem = s.mem ∧ Transferred s.obj r.1.obj ((s.bytesAt v.1 v.2.toNat).take r.2.toNat) ∧
      r.2 ≤ v.2.toNat := by
  have hpos : 0 < v.2.toNat := Nat.pos_of_ne_zero fun h0 => hv (UInt64.toNat_inj.1 h0)
  have hnothing : ∀ e : Err, (s.bytesAt v.1 v.2.toNat).take e.code.toNat = [] := fun e => by
    rw [Int.toNat_of_nonpos e.code_neg.le, take_zero]
  have hcode : ∀ e : Err, e.code ≤ v.2.toNat := fun e => by
    have := e.code_neg
    omega
  have hfail : ∀ e : Err,
      s.mem = s.mem ∧ Transferred s.obj s.obj ((s.bytesAt v.1 v.2.toNat).take e.code.toNat) ∧
        e.code ≤ v.2.toNat :=
    fun e => ⟨rfl, by rw [hnothing]; exact .same _, hcode e⟩
  dsimp only
  rw [run_sysWrite, if_neg hv]
  cases s.rights with
  | error e => exact hfail e
  | ok rights =>
    dsimp only
    split_ifs
    · exact hfail .eperm
    · exact hfail .einval
    · cases userRangeCheck v.1 (min v.2 ioMax) with
      | error e => exact hfail e
      | ok u =>
        have hcap := readCap_eq v.2
        have hne : s.bytesAt v.1 (readCap v.2) ≠ [] := by
          rw [← length_pos_iff, length_bytesAt, hcap, nxChannelMsgMax]
          omega
        have htransfer := transferred_writeObj hobj hne
        refine ⟨rfl, ?_⟩
        dsimp only [writeFrom]
        cases hres : (writeObj s.obj (s.bytesAt v.1 (readCap v.2))).2 with
        | error e =>
          rw [hres] at htransfer
          rw [writeReply, hnothing]
          exact ⟨htransfer, hcode e⟩
        | ok n =>
          rw [hres] at htransfer
          obtain ⟨hn, htransfer⟩ := htransfer
          rw [length_bytesAt] at hn
          rw [take_bytesAt _ _ hn] at htransfer
          rw [writeReply, Int.toNat_natCast, take_bytesAt _ _ (by omega)]
          exact ⟨htransfer, by dsimp only; omega⟩

/-! ### `sys_writev` -/

/-- The buffers, laid end to end. -/
def gather (s : IoState) (vs : List (Addr × UInt64)) : List UInt8 :=
  vs.flatMap fun v => s.bytesAt v.1 v.2.toNat

theorem isConsole_of_transferred {a b : IoObject} {bytes : List UInt8} (h : Transferred a b bytes)
    (ha : a.isConsole = false) : b.isConsole = false := by
  cases h with
  | same => exact ha
  | channel => rfl
  | ramfs => rfl

theorem gather_full (s : IoState) (vs : List (Addr × UInt64)) :
    s.gather (fullIovecs vs) = s.gather vs := by
  induction vs with
  | nil => rfl
  | cons v vs ih =>
    by_cases hv : v.2 = 0
    · have hskip : fullIovecs (v :: vs) = fullIovecs vs := by simp [fullIovecs, hv]
      rw [hskip, ih]
      simp [gather, hv, bytesAt]
    · have hfull : fullIovecs (v :: vs) = v :: fullIovecs vs := by simp [fullIovecs, hv]
      rw [hfull]
      simpa [gather] using ih

/-- **The loop**: a first part of the buffers is transferred. The result is its length more than
before, or an error if nothing was transferred at all. -/
theorem iovLoop_transfers (h : Handle) (hvs : ∀ v ∈ vs, v.2 ≠ 0) (hobj : s.obj.isConsole = false)
    {total : ℤ} (htotal : 0 ≤ total) :
    let r := Prog.run step (iovLoop (sysWrite h) vs total) s
    ∃ n, n ≤ (s.gather vs).length ∧ Transferred s.obj r.1.obj ((s.gather vs).take n) ∧
      (r.2 = total + n ∨ r.2 < 0 ∧ total = 0 ∧ n = 0) := by
  induction vs generalizing s total with
  | nil => exact ⟨0, Nat.zero_le _, .same _, .inl (by simp [iovLoop])⟩
  | cons v vs ih =>
    have hv : v.2 ≠ 0 := hvs v mem_cons_self
    obtain ⟨hmem, htransfer, hle⟩ := sysWrite_transfers h hobj hv
    have hgather : s.gather (v :: vs) = s.bytesAt v.1 v.2.toNat ++ s.gather vs := rfl
    dsimp only
    rw [run_iovLoop_cons s _ hv]
    dsimp only
    generalize Prog.run step (sysWrite h v.1 v.2) s = r at hmem htransfer hle
    by_cases hneg : r.2 < 0
    · rw [if_pos hneg]
      rw [Int.toNat_of_nonpos hneg.le, take_zero] at htransfer
      refine ⟨0, Nat.zero_le _, htransfer, ?_⟩
      split_ifs with hpos <;> dsimp only <;> omega
    rw [if_neg hneg]
    by_cases hshort : r.2.toNat < v.2.toNat
    · rw [if_pos hshort]
      refine ⟨r.2.toNat, ?_, ?_, .inl (by dsimp only; omega)⟩
      · rw [hgather, length_append, length_bytesAt]
        omega
      · rw [hgather, take_append_of_le_length (by rw [length_bytesAt]; omega)]
        exact htransfer
    · -- The buffer was written whole, and the loop goes on from there.
      rw [if_neg hshort]
      have hfull : r.2.toNat = v.2.toNat := by omega
      obtain ⟨n, hn, hrest, hres⟩ := ih (fun w hw => hvs w (mem_cons_of_mem _ hw))
        (isConsole_of_transferred htransfer hobj) (show 0 ≤ total + r.2 by omega)
      have hsame : IoState.gather r.1 vs = s.gather vs := by simp [gather, bytesAt, hmem]
      rw [hsame] at hn hrest
      rw [hfull, take_bytesAt _ _ le_rfl] at htransfer
      refine ⟨v.2.toNat + n, ?_, ?_, ?_⟩
      · rw [hgather, length_append, length_bytesAt]
        omega
      · rw [hgather, take_append, take_of_length_le (by rw [length_bytesAt]; omega), length_bytesAt,
          Nat.add_sub_cancel_left]
        exact htransfer.trans hrest
      · omega

/-- The call: a first part of the buffers is transferred, and the result is its length, or an error
if it is empty. -/
theorem sysWritev_transfers (h : Handle) (hobj : s.obj.isConsole = false) (iovs : Addr)
    (count : UInt64) :
    let r := Prog.run step (sysWritev h iovs count) s
    let data := s.gather (s.iovecs iovs (asInt count).toNat)
    ∃ n, n ≤ data.length ∧ Transferred s.obj r.1.obj (data.take n) ∧ (r.2 = n ∨ r.2 < 0 ∧ n = 0) := by
  dsimp only
  rw [sysWritev, run_sysIov]
  split_ifs with hneg hzero hbig
  · exact ⟨0, Nat.zero_le _, .same _, .inr ⟨Err.code_neg .einval, rfl⟩⟩
  · exact ⟨0, Nat.zero_le _, .same _, .inl rfl⟩
  · exact ⟨0, Nat.zero_le _, .same _, .inr ⟨Err.code_neg .einval, rfl⟩⟩
  · cases userRangeCheck iovs (asSize (asInt count * 16)) with
    | error e => exact ⟨0, Nat.zero_le _, .same _, .inr ⟨e.code_neg, rfl⟩⟩
    | ok u =>
      dsimp only
      rw [run_iovLoop_full, ← gather_full]
      have hne : ∀ v ∈ fullIovecs (s.iovecs iovs (asInt count).toNat), v.2 ≠ 0 := fun v hv => by
        simpa using (mem_filter.1 hv).2
      obtain ⟨n, hn, htransfer, hres⟩ := iovLoop_transfers h hne hobj le_rfl
      exact ⟨n, hn, htransfer, by omega⟩

/-- **`sys_writev` to a channel or a file**: the object has got the first bytes of the buffers laid
end to end, as many as the result says, and nothing if the result is an error. -/
theorem writev_transfers_prefix (h : Handle) (s : IoState) (hobj : s.obj.isConsole = false)
    (iovs : Addr) (count : UInt64) :
    let r := Prog.run step (sysWritev h iovs count) s
    let data := s.gather (s.iovecs iovs (asInt count).toNat)
    (0 ≤ r.2 → r.2.toNat ≤ data.length ∧ Transferred s.obj r.1.obj (data.take r.2.toNat)) ∧
      (r.2 < 0 → Transferred s.obj r.1.obj []) := by
  obtain ⟨n, hn, htransfer, hres⟩ := sysWritev_transfers h hobj iovs count
  dsimp only at hn htransfer hres ⊢
  rcases hres with hres | ⟨hneg, rfl⟩
  · rw [hres, Int.toNat_natCast]
    exact ⟨fun _ => ⟨hn, htransfer⟩, fun hlt => absurd hlt (by omega)⟩
  · exact ⟨fun hpos => absurd hpos (by omega), fun _ => htransfer⟩

/-- A handle to a new channel, and two buffers of four bytes. -/
def twoBuffers : IoState := { mem := twoVectors, rights := .ok nxRightWrite, obj := .channel {} 0 }

/-- Both are written to it. -/
theorem writev_transfers_prefix_two_buffers :
    (Prog.run step (sysWritev 1 (mmuUserWindowBase + 64) 2) twoBuffers).2 = 8 ∧
      Transferred twoBuffers.obj
        (Prog.run step (sysWritev 1 (mmuUserWindowBase + 64) 2) twoBuffers).1.obj
        ((twoBuffers.gather [(mmuUserWindowBase, 4), (mmuUserWindowBase + 4, 4)]).take 8) := by
  have hres : (Prog.run step (sysWritev 1 (mmuUserWindowBase + 64) 2) twoBuffers).2 = 8 := by
    decide +kernel
  have hvectors : twoBuffers.iovecs (mmuUserWindowBase + 64) (asInt 2).toNat =
      [(mmuUserWindowBase, 4), (mmuUserWindowBase + 4, 4)] := by decide +kernel
  have hboth := writev_transfers_prefix 1 twoBuffers rfl (mmuUserWindowBase + 64) 2
  have hsent := hboth.1
  rw [hvectors, hres] at hsent
  exact ⟨hres, (hsent (by decide)).2⟩

end IoState

end Nonux.Syscall.Io
