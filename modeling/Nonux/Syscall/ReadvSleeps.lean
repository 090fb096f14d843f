import Nonux.Syscall.ReadErrors

/-!
# Reads of several buffers, from a pipe (`framework/syscall.c`)

`sys_readv` reads into one buffer after the other, each time with a `sys_read`, and goes on after a
buffer that was filled. On a pipe each of the reads may sleep. So a `sys_readv` whose first buffers
were filled exactly, each by one message, and that finds the pipe empty then, sleeps with bytes in
hand.

`WouldSleep` is this situation, said of the messages that wait and the buffers.
`readv_sleeps_only_before_bytes_iff` says that it is the only one.
-/

namespace Nonux.Syscall.Io

open Nonux.Framework Nonux.Components Nonux.Lib Nonux.Syscall.UserAccess List

/-! ### Messages and buffers -/

/-- The message fills the buffer, which is one that a message can fill and that can be written. -/
def Fills (m : List UInt8) (v : Addr × UInt64) : Prop :=
  m.length = v.2.toNat ∧ m.length ≤ nxChannelMsgMax ∧ userRangeCheck v.1 v.2 = .ok ()

/-- The messages fill the first buffers, one each, and there is another buffer. -/
def WouldSleep (q : List (List UInt8)) (vs : List (Addr × UInt64)) : Prop :=
  ∃ filled v rest, vs = filled ++ v :: rest ∧ List.Forall₂ Fills q filled

theorem not_wouldSleep_nil (q : List (List UInt8)) : ¬ WouldSleep q [] := by
  rintro ⟨filled, v, rest, hvs, -⟩
  simp at hvs

theorem wouldSleep_nil_cons (v : Addr × UInt64) (vs : List (Addr × UInt64)) : WouldSleep [] (v :: vs) :=
  ⟨[], v, vs, rfl, .nil⟩

theorem wouldSleep_cons_cons {m : List UInt8} {q : List (List UInt8)} {v : Addr × UInt64}
    {vs : List (Addr × UInt64)} : WouldSleep (m :: q) (v :: vs) ↔ Fills m v ∧ WouldSleep q vs := by
  constructor
  · rintro ⟨filled, w, rest, hvs, hfills⟩
    cases hfills with
    | cons hm hq =>
      obtain ⟨rfl, rfl⟩ := List.cons.inj hvs
      exact ⟨hm, _, w, rest, rfl, hq⟩
  · rintro ⟨hm, filled, w, rest, rfl, hq⟩
    exact ⟨v :: filled, w, rest, rfl, .cons hm hq⟩

/-- The pipe can be read and written at its ends, and the messages in it lead the buffers into
sleep. -/
def Stuck (ch : RingChannel) (side : Fin 2) (vs : List (Addr × UInt64)) : Prop :=
  (ch.e side).closed = false ∧ (ch.peerOf side).closed = false ∧ WouldSleep (ch.e side).messages vs

/-- One message fills the first buffer. -/
theorem stuck_cons_iff {ch : RingChannel} {side : Fin 2} {m : List UInt8} {q : List (List UInt8)}
    {v : Addr × UInt64} {vs : List (Addr × UInt64)} {e' : RingEndpoint}
    (hopen : (ch.e side).closed = false) (hq : (ch.e side).messages = m :: q) (hfills : Fills m v)
    (hopen' : e'.closed = false) (hq' : e'.messages = q) :
    Stuck ch side (v :: vs) ↔ Stuck (ch.set side e') side vs := by
  simp [Stuck, hopen, hopen', hq, hq', wouldSleep_cons_cons, hfills]

/-! ### Sleeping with bytes in hand -/

/-- The caller has slept after a byte was stored. -/
def SleepsAfterBytes (l : List IoEvent) : Prop := ∃ l₁ l₂, l = l₁ ++ .slept :: l₂ ∧ .stored ∈ l₁

theorem SleepsAfterBytes.slept_mem {l : List IoEvent} (h : SleepsAfterBytes l) : .slept ∈ l := by
  obtain ⟨l₁, l₂, rfl, -⟩ := h
  simp

theorem sleepsAfterBytes_cons {ev : IoEvent} {l : List IoEvent} :
    SleepsAfterBytes (ev :: l) ↔ (ev = .stored ∧ .slept ∈ l) ∨ SleepsAfterBytes l := by
  constructor
  · rintro ⟨l₁, l₂, hl, hmem⟩
    cases l₁ with
    | nil => simp at hmem
    | cons ev' l₁ =>
      obtain ⟨rfl, rfl⟩ := List.cons.inj hl
      rcases mem_cons.1 hmem with hev | hmem
      · exact .inl ⟨hev.symm, by simp⟩
      · exact .inr ⟨l₁, l₂, rfl, hmem⟩
  · rintro (⟨rfl, hmem⟩ | ⟨l₁, l₂, rfl, hmem⟩)
    · obtain ⟨l₁, l₂, rfl⟩ := append_of_mem hmem
      exact ⟨.stored :: l₁, l₂, rfl, mem_cons_self⟩
    · exact ⟨ev :: l₁, l₂, rfl, mem_cons_of_mem _ hmem⟩

/-- Having slept first says nothing. -/
theorem sleepsAfterBytes_slept_append (n : ℕ) (l : List IoEvent) :
    SleepsAfterBytes (List.replicate n .slept ++ l) ↔ SleepsAfterBytes l := by
  induction n with
  | zero => rfl
  | succ n ih => simp [replicate_succ, sleepsAfterBytes_cons, ih]

/-- After bytes were stored, any sleep counts. -/
theorem sleepsAfterBytes_stored_append {k : ℕ} (hk : k ≠ 0) (l : List IoEvent) :
    SleepsAfterBytes (List.replicate k .stored ++ l) ↔ .slept ∈ l := by
  obtain ⟨k, rfl⟩ := Nat.exists_eq_succ_of_ne_zero hk
  rw [replicate_succ, cons_append, sleepsAfterBytes_cons]
  constructor
  · rintro (⟨-, hmem⟩ | hl)
    · simpa using hmem
    · simpa using hl.slept_mem
  · intro hmem
    exact .inl ⟨rfl, mem_append_right _ hmem⟩

theorem not_sleepsAfterBytes_stored (k : ℕ) : ¬ SleepsAfterBytes (List.replicate k .stored) :=
  fun h => by simpa using h.slept_mem

namespace IoState

/-! ### One read -/

variable {s : IoState} {ch : RingChannel} {side : Fin 2} {cap : ℕ} {v : Addr × UInt64}
  {vs : List (Addr × UInt64)}

theorem await_of_ready (h : (ch.nxChannelRecv (some side) (some cap)).2 ≠ .error .eagain)
    (others : List (RingChannel → RingChannel)) : await side cap ch others = (ch, others, []) := by
  cases others <;> simp [await, h]

/-- Who finds something to read does not sleep. -/
theorem awake_of_ready (hobj : s.obj = .channel ch side)
    (h : (ch.nxChannelRecv (some side) (some cap)).2 ≠ .error .eagain) : s.awake cap = s := by
  unfold awake
  split
  · next ch' side' _ hobj' =>
    obtain ⟨rfl, rfl⟩ := IoObject.channel.inj (hobj.symm.trans hobj')
    rw [await_of_ready h]
    cases s
    simp_all
  · rfl

theorem log_await (side : Fin 2) (cap : ℕ) (ch : RingChannel)
    (others : List (RingChannel → RingChannel)) :
    ∃ n, (await side cap ch others).2.2 = List.replicate n .slept ∧
      ((ch.nxChannelRecv (some side) (some cap)).2 = .error .eagain → n ≠ 0) := by
  induction others generalizing ch with
  | nil =>
    by_cases h : (ch.nxChannelRecv (some side) (some cap)).2 = .error .eagain
    · exact ⟨1, by simp [await, h], by simp⟩
    · exact ⟨0, by simp [await, h], fun h' => absurd h' h⟩
  | cons act others ih =>
    by_cases h : (ch.nxChannelRecv (some side) (some cap)).2 = .error .eagain
    · obtain ⟨n, hn, -⟩ := ih (act ch)
      exact ⟨n + 1, by simp [await, h, hn, replicate_succ], by simp⟩
    · exact ⟨0, by simp [await, h], fun h' => absurd h' h⟩

/-- Who finds nothing to read sleeps. -/
theorem log_awake (cap : ℕ) (hobj : s.obj = .channel ch side) (hsleeps : s.sleeps = true) :
    ∃ n, (s.awake cap).log = s.log ++ List.replicate n .slept ∧
      ((ch.nxChannelRecv (some side) (some cap)).2 = .error .eagain → n ≠ 0) := by
  obtain ⟨n, hn, hpos⟩ := log_await side cap ch s.others
  exact ⟨n, by simp [awake, hobj, hsleeps, hn], hpos⟩

/-- Sleeping is all that is logged until the caller is awake. -/
theorem exists_log_awake (s : IoState) (cap : ℕ) :
    ∃ n, (s.awake cap).log = s.log ++ List.replicate n .slept := by
  unfold awake
  split
  · obtain ⟨n, hn, -⟩ := log_await _ _ _ s.others
    exact ⟨n, by rw [← hn]⟩
  · exact ⟨0, (append_nil _).symm⟩

theorem awake_sleeps (s : IoState) (cap : ℕ) : (s.awake cap).sleeps = s.sleeps := by
  unfold awake
  split <;> rfl

theorem awake_rights (s : IoState) (cap : ℕ) : (s.awake cap).rights = s.rights := by
  unfold awake
  split <;> rfl

theorem awake_obj (cap : ℕ) (hobj : s.obj = .channel ch side) :
    ∃ ch', (s.awake cap).obj = .channel ch' side := by
  unfold awake
  split
  · next ch' side' _ hobj' =>
    obtain ⟨rfl, rfl⟩ := IoObject.channel.inj (hobj.symm.trans hobj')
    exact ⟨_, rfl⟩
  · exact ⟨ch, hobj⟩

/-- Delivering what was read: an error, or as many bytes stored as the result says. -/
theorem exists_log_deliver (s : IoState) (buf : Addr) (r : Except Err (List UInt8)) :
    ∃ k, (s.deliver buf r).1.log = s.log ++ List.replicate k .stored ∧
      ((s.deliver buf r).2 < 0 ∧ k = 0 ∨ (s.deliver buf r).2 = k) := by
  cases r with
  | error e => exact ⟨0, (append_nil _).symm, .inl ⟨e.code_neg, rfl⟩⟩
  | ok bytes =>
    unfold deliver
    dsimp only
    split_ifs with hcons
    · exact ⟨0, (append_nil _).symm, .inr rfl⟩
    · cases userRangeCheck buf (UInt64.ofNat bytes.length) with
      | error e => exact ⟨0, (append_nil _).symm, .inl ⟨e.code_neg, rfl⟩⟩
      | ok u => exact ⟨bytes.length, s.store_log buf bytes bytes.length, .inr rfl⟩

/-- The events of a read: the result is the number of bytes stored. -/
theorem exists_log_readInto (s : IoState) (buf : Addr) (cap : ℕ) :
    ∃ l, (s.readInto buf cap).1.log = s.log ++ l ∧
      ((s.readInto buf cap).2 < 0 ∧ l.count .stored = 0 ∨ (s.readInto buf cap).2 = l.count .stored) := by
  obtain ⟨n, hn⟩ := s.exists_log_awake cap
  obtain ⟨k, hk, hres⟩ :=
    exists_log_deliver { s.awake cap with obj := (readObj (s.awake cap).obj cap).1 } buf
      (readObj (s.awake cap).obj cap).2
  refine ⟨List.replicate n .slept ++ List.replicate k .stored, ?_, ?_⟩
  · rw [readInto, hk, hn, append_assoc]
  · have hcount : (List.replicate n IoEvent.slept ++ List.replicate k IoEvent.stored).count
        .stored = k := by
      simp [count_replicate]
    rw [hcount]
    exact hres

/-- A read, by a caller who is awake: one message fills the buffer, or `sys_readv` stops here. -/
theorem read_cases (hobj : (s.awake (readCap v.2)).obj = .channel ch side) (hv : v.2 ≠ 0) :
    let r := s.readInto v.1 (readCap v.2)
    (∃ m q e', (ch.e side).closed = false ∧ (ch.e side).messages = m :: q ∧ Fills m v ∧ r.2 = v.2.toNat ∧
        r.1.log = (s.awake (readCap v.2)).log ++ List.replicate v.2.toNat .stored ∧
        r.1.obj = .channel (ch.set side e') side ∧ e'.messages = q ∧ e'.closed = false) ∨
      ((r.2 < 0 ∨ r.2.toNat < v.2.toNat) ∧
        (∃ k, r.1.log = (s.awake (readCap v.2)).log ++ List.replicate k .stored) ∧
        ∀ m q, (ch.e side).closed = false → (ch.e side).messages = m :: q → ¬ Fills m v) := by
  have hcap := readCap_ne_zero hv
  have hle : readCap v.2 ≤ v.2.toNat ∧ readCap v.2 ≤ nxChannelMsgMax := by
    rw [readCap_eq]
    exact ⟨min_le_left _ _, min_le_right _ _⟩
  have hpos : 0 < v.2.toNat := Nat.pos_of_ne_zero fun h0 => hv (UInt64.toNat_inj.1 h0)
  have hrun : s.readInto v.1 (readCap v.2) =
      deliver { s.awake (readCap v.2) with
        obj := .channel (ch.nxChannelRecv (some side) (some (readCap v.2))).1 side } v.1
          (ch.nxChannelRecv (some side) (some (readCap v.2))).2 := by
    rw [readInto, hobj]
    rfl
  dsimp only
  rw [hrun]
  obtain ⟨k, hk, hres⟩ := exists_log_deliver { s.awake (readCap v.2) with
        obj := .channel (ch.nxChannelRecv (some side) (some (readCap v.2))).1 side } v.1
          (ch.nxChannelRecv (some side) (some (readCap v.2))).2
  generalize hr : ch.nxChannelRecv (some side) (some (readCap v.2)) = r at *
  have hmoves : RingChannel.RecvMoves ch side (readCap v.2) r :=
    hr ▸ RingChannel.nxChannelRecv_moves ch side hcap
  cases hmoves with
  | closed hclosed =>
    exact .inr ⟨.inl (Err.code_neg .ebusy), ⟨k, hk⟩, fun m q hopen => absurd hopen (by simp [hclosed])⟩
  | eof hopen hnil hpeer =>
    refine .inr ⟨?_, ⟨k, hk⟩, fun m q _ hq => absurd hq (by simp [hnil])⟩
    simp only [deliver, IoObject.isConsole, Bool.false_eq_true, false_and, ↓reduceIte]
    cases userRangeCheck v.1 (UInt64.ofNat ([] : List UInt8).length) with
    | error e => exact .inl e.code_neg
    | ok u => exact .inr hpos
  | again hopen hnil hpeer =>
    exact .inr ⟨.inl (Err.code_neg .eagain), ⟨k, hk⟩, fun m q _ hq => absurd hq (by simp [hnil])⟩
  | @big m q hopen hq hbig =>
    refine .inr ⟨.inl (Err.code_neg .enomem), ⟨k, hk⟩, fun m' q' _ hq' hfills => ?_⟩
    obtain ⟨rfl, rfl⟩ := List.cons.inj (hq.symm.trans hq')
    obtain ⟨hlen, hmax, -⟩ := hfills
    rw [readCap_eq] at hbig
    omega
  | @message m q e' hopen hq hfits hq' hsame =>
    have hlen : UInt64.ofNat m.length = v.2 ↔ m.length = v.2.toNat := by
      rw [← UInt64.toNat_inj, toNat_ofNat_length (hfits.trans hle.2)]
    simp only [deliver, IoObject.isConsole, Bool.false_eq_true, false_and, ↓reduceIte] at hk hres ⊢
    cases hcheck : userRangeCheck v.1 (UInt64.ofNat m.length) with
    | error e =>
      rw [hcheck] at hk
      refine .inr ⟨.inl e.code_neg, ⟨k, hk⟩, fun m' q' _ hm' hfills => ?_⟩
      obtain ⟨rfl, rfl⟩ := List.cons.inj (hq.symm.trans hm')
      rw [hlen.2 hfills.1, hfills.2.2] at hcheck
      cases hcheck
    | ok u =>
      by_cases hshort : m.length < v.2.toNat
      · rw [hcheck] at hk
        refine .inr ⟨.inr hshort, ⟨k, hk⟩, fun m' q' _ hm' hfills => ?_⟩
        obtain ⟨rfl, rfl⟩ := List.cons.inj (hq.symm.trans hm')
        exact hshort.ne hfills.1
      · have hsize : m.length = v.2.toNat := by omega
        refine .inl ⟨m, q, e', hopen, hq, ⟨hsize, hfits.trans hle.2, ?_⟩, ?_, ?_, ?_, hq', ?_⟩
        · rw [← hlen.2 hsize]
          exact hcheck
        · exact congrArg Nat.cast hsize
        · rw [← hsize]
          exact store_log _ _ _ _
        · exact store_obj _ _ _ _
        · rw [← hopen]
          exact congrArg ChannelEndpoint.closed hsame

theorem readInto_keeps (s : IoState) (buf : Addr) (cap : ℕ) :
    (s.readInto buf cap).1.sleeps = s.sleeps ∧ (s.readInto buf cap).1.rights = s.rights := by
  rw [← s.awake_sleeps cap, ← s.awake_rights cap, readInto]
  cases (readObj (s.awake cap).obj cap).2 with
  | error e => exact ⟨rfl, rfl⟩
  | ok bytes =>
    unfold deliver
    dsimp only
    split_ifs
    · exact ⟨rfl, rfl⟩
    · cases userRangeCheck buf (UInt64.ofNat bytes.length) <;> simp

/-! ### The loop -/

theorem exists_log_sysRead (s : IoState) (h : Handle) (buf : Addr) (cap : UInt64) :
    ∃ l, (Prog.run step (sysRead h buf cap) s).1.log = s.log ++ l ∧
      ((Prog.run step (sysRead h buf cap) s).2 < 0 ∧ l.count .stored = 0 ∨
        (Prog.run step (sysRead h buf cap) s).2 = l.count .stored) := by
  rw [run_sysRead]
  by_cases hcap : cap = 0
  · rw [if_pos hcap]
    exact ⟨[], (append_nil _).symm, .inr rfl⟩
  · rw [if_neg hcap]
    cases s.rights with
    | error e => exact ⟨[], (append_nil _).symm, .inl ⟨Err.code_neg .enoent, rfl⟩⟩
    | ok rights =>
      dsimp only
      split_ifs
      · exact ⟨[], (append_nil _).symm, .inl ⟨Err.code_neg .eperm, rfl⟩⟩
      · exact ⟨[], (append_nil _).symm, .inl ⟨Err.code_neg .einval, rfl⟩⟩
      · exact s.exists_log_readInto buf (readCap cap)

variable {total : ℤ}

/-- The result of the loop is the number of bytes stored, if there were any. -/
theorem exists_log_iovLoop (s : IoState) (h : Handle) (hvs : ∀ v ∈ vs, v.2 ≠ 0) (htotal : 0 ≤ total) :
    ∃ l, (Prog.run step (iovLoop (sysRead h) vs total) s).1.log = s.log ++ l ∧
      ((Prog.run step (iovLoop (sysRead h) vs total) s).2 = total + l.count .stored ∨ total = 0 ∧
        l.count .stored = 0) := by
  induction vs generalizing s total with
  | nil => exact ⟨[], (append_nil _).symm, .inl (add_zero _).symm⟩
  | cons v vs ih =>
    obtain ⟨l, hlog, hres⟩ := s.exists_log_sysRead h v.1 v.2
    rw [run_iovLoop_cons s _ (hvs v mem_cons_self)]
    dsimp only
    split_ifs with hneg hpos hshort
    · refine ⟨l, hlog, .inl ?_⟩
      dsimp only
      omega
    · refine ⟨l, hlog, .inr ⟨?_, ?_⟩⟩ <;> omega
    · refine ⟨l, hlog, .inl ?_⟩
      dsimp only
      omega
    · obtain ⟨l', hlog', hres'⟩ := ih (Prog.run step (sysRead h v.1 v.2) s).1
        (fun w hw => hvs w (mem_cons_of_mem _ hw))
        (show 0 ≤ total + (Prog.run step (sysRead h v.1 v.2) s).2 by omega)
      refine ⟨l ++ l', by rw [hlog', hlog, append_assoc], ?_⟩
      rw [count_append]
      push_cast
      omega

/-- One read, and what follows it: nothing, if it was an error or short. -/
theorem exists_log_iovLoop_cons (s : IoState) (h : Handle) (hvs : ∀ w ∈ v :: vs, w.2 ≠ 0)
    (htotal : 0 ≤ total) :
    let r := Prog.run step (sysRead h v.1 v.2) s
    ∃ l, (Prog.run step (iovLoop (sysRead h) (v :: vs) total) s).1.log = r.1.log ++ l ∧
      (r.2 < 0 ∨ r.2.toNat < v.2.toNat → l = []) := by
  dsimp only
  rw [run_iovLoop_cons s _ (hvs v mem_cons_self)]
  dsimp only
  by_cases hneg : (Prog.run step (sysRead h v.1 v.2) s).2 < 0
  · rw [if_pos hneg]
    exact ⟨[], (append_nil _).symm, fun _ => rfl⟩
  · rw [if_neg hneg]
    split_ifs with hshort
    · exact ⟨[], (append_nil _).symm, fun _ => rfl⟩
    · obtain ⟨l, hl, -⟩ := exists_log_iovLoop (Prog.run step (sysRead h v.1 v.2) s).1 h
        (fun w hw => hvs w (mem_cons_of_mem _ hw))
        (show 0 ≤ total + (Prog.run step (sysRead h v.1 v.2) s).2 by omega)
      exact ⟨l, hl, fun hstop => absurd hstop (by tauto)⟩

/-- After a buffer that was filled, the loop goes on. -/
theorem run_iovLoop_filled {h : Handle} (hv : v.2 ≠ 0) (total : ℤ)
    (hfull : (Prog.run step (sysRead h v.1 v.2) s).2 = v.2.toNat) :
    Prog.run step (iovLoop (sysRead h) (v :: vs) total) s =
      Prog.run step (iovLoop (sysRead h) vs (total + v.2.toNat))
      (Prog.run step (sysRead h v.1 v.2) s).1 := by
  rw [run_iovLoop_cons s _ hv]
  dsimp only
  rw [hfull, if_neg (by omega), if_neg (by omega)]

/-- **When the loop sleeps**: when it comes to an empty pipe. -/
theorem slept_mem_iovLoop (h : Handle) (hvs : ∀ v ∈ vs, v.2 ≠ 0) (hobj : s.obj = .channel ch side)
    (hsleeps : s.sleeps = true) (hcan : CanRead s) (htotal : 0 ≤ total) {l : List IoEvent}
    (hl : (Prog.run step (iovLoop (sysRead h) vs total) s).1.log = s.log ++ l) :
    .slept ∈ l ↔ Stuck ch side vs := by
  induction vs generalizing s ch total l with
  | nil =>
    have hnil : l = [] := by simpa [iovLoop] using hl
    simp [hnil, Stuck, not_wouldSleep_nil]
  | cons v vs ih =>
    have hv : v.2 ≠ 0 := hvs v mem_cons_self
    have hread := run_sysRead_of_canRead hcan h v.1 hv
    obtain ⟨l', hl', hstop'⟩ := exists_log_iovLoop_cons s h hvs htotal
    rw [hread] at hl' hstop'
    have heagain := RingChannel.nxChannelRecv_eagain_iff ch side (readCap_ne_zero hv)
    by_cases hready : (ch.nxChannelRecv (some side) (some (readCap v.2))).2 = .error .eagain
    · -- The pipe is empty. Whatever comes afterwards, the caller has slept.
      obtain ⟨hopen, hpeer, hnil⟩ := heagain.1 hready
      refine iff_of_true ?_ ⟨hopen, hpeer, hnil ▸ wouldSleep_nil_cons v vs⟩
      obtain ⟨n, hn, hpos⟩ := log_awake (readCap v.2) hobj hsleeps
      obtain ⟨k, hk, -⟩ := exists_log_deliver
        { s.awake (readCap v.2) with obj := (readObj (s.awake (readCap v.2)).obj (readCap v.2)).1 } v.1
          (readObj (s.awake (readCap v.2)).obj (readCap v.2)).2
      have hall : s.log ++ l = s.log ++ (List.replicate n .slept ++ List.replicate k .stored ++ l') := by
        rw [← hl, hl', readInto, hk, hn]
        simp
      rw [append_cancel_left hall]
      simp [hpos hready]
    · have hawake := awake_of_ready hobj hready
      rw [heagain] at hready
      rcases read_cases (hawake.symm ▸ hobj) hv with
        ⟨m, q, e', hopen, hq, hfills, hres, hlog, hobj', hq', hopen'⟩ | ⟨hstop, ⟨k, hlog⟩, hnot⟩
      · -- A message fills the buffer, and the loop goes on.
        rw [stuck_cons_iff hopen hq hfills hopen' hq']
        rw [run_iovLoop_filled hv total (by rw [hread]; exact hres), hread] at hl
        obtain ⟨hsleeps', hrights'⟩ := s.readInto_keeps v.1 (readCap v.2)
        have hcan' : CanRead (s.readInto v.1 (readCap v.2)).1 := by
          rw [CanRead, hobj', hrights']
          exact ⟨by simp [IoObject.type], hcan.2⟩
        obtain ⟨l₁, hl₁, -⟩ := exists_log_iovLoop (s.readInto v.1 (readCap v.2)).1 h
          (fun w hw => hvs w (mem_cons_of_mem _ hw)) (show 0 ≤ total + v.2.toNat by omega)
        have hall : s.log ++ l = s.log ++ (List.replicate v.2.toNat .stored ++ l₁) := by
          rw [← hl, hl₁, hlog, hawake, append_assoc]
        rw [append_cancel_left hall, ← ih (fun w hw => hvs w (mem_cons_of_mem _ hw)) hobj'
          (hsleeps'.trans hsleeps) hcan' (by omega) hl₁]
        simp
      · -- The loop stops here.
        have hall : s.log ++ l = s.log ++ List.replicate k .stored := by
          rw [← hl, hl', hstop' hstop, hlog, hawake, append_nil]
        rw [append_cancel_left hall]
        refine iff_of_false (by simp) fun hstuck => ?_
        obtain ⟨hopen, hpeer, hsleep⟩ := hstuck
        cases hq : (ch.e side).messages with
        | nil => exact hready ⟨hopen, hpeer, hq⟩
        | cons m q =>
          rw [hq, wouldSleep_cons_cons] at hsleep
          exact hnot m q hopen hq hsleep.1

end IoState

/-! ### The call -/

namespace ReadCall

open IoState

/-- `sys_readv` that reads something sleeps with bytes in hand exactly if the messages that it finds
lead it there. -/
theorem sleepsAfterBytes_iff {h : Handle} {s : IoState} {ch : RingChannel} {side : Fin 2}
    {iovs : Addr} {count : UInt64} {buf : Addr} {cap : UInt64} (hsleeps : s.sleeps = true)
    (hlog : s.log = []) (hreads : (ReadCall.readv iovs count).Reads s buf cap)
    (hobj : (s.awake (readCap cap)).obj = .channel ch side) :
    SleepsAfterBytes ((ReadCall.readv iovs count).run h s).1.log ↔
      (ch.e side).messages ≠ [] ∧ Stuck ch side (fullIovecs (s.iovecs iovs (asInt count).toNat)) := by
  obtain ⟨hcount, hcheck, hhead, hcan⟩ := hreads
  rw [run_readv hcount hcheck]
  have hne : ∀ v ∈ fullIovecs (s.iovecs iovs (asInt count).toNat), v.2 ≠ 0 := fun v hv => by
    simpa using (mem_filter.1 hv).2
  obtain ⟨rest, hfull⟩ := head?_eq_some_iff.1 hhead
  rw [hfull] at hne ⊢
  have hcap : cap ≠ 0 := hne _ mem_cons_self
  have hread := run_sysRead_of_canRead hcan h buf hcap
  obtain ⟨n, hn⟩ := s.exists_log_awake (readCap cap)
  rw [hlog, nil_append] at hn
  rcases read_cases (v := (buf, cap)) hobj hcap with
    ⟨m, q, e', hopen, hq, hfills, hres, hlog', hobj', hq', hopen'⟩ | ⟨hstop, ⟨k, hlog'⟩, hnot⟩
  · -- The first buffer is filled by a message; what counts is whether the rest of the loop sleeps.
    obtain ⟨hsleeps', hrights'⟩ := s.readInto_keeps buf (readCap cap)
    have hcan' : CanRead (s.readInto buf (readCap cap)).1 := by
      rw [CanRead, hobj', hrights']
      exact ⟨by simp [IoObject.type], hcan.2⟩
    have hne' : ∀ w ∈ rest, w.2 ≠ 0 := fun w hw => hne w (mem_cons_of_mem _ hw)
    obtain ⟨l, hl, -⟩ := exists_log_iovLoop (s.readInto buf (readCap cap)).1 h hne'
      (show (0 : ℤ) ≤ 0 + cap.toNat by omega)
    have hpos : cap.toNat ≠ 0 := fun h0 => hcap (UInt64.toNat_inj.1 h0)
    rw [run_iovLoop_filled hcap 0 (by rw [hread]; exact hres), hread, hl, hlog', hn, append_assoc,
      sleepsAfterBytes_slept_append, sleepsAfterBytes_stored_append hpos,
      slept_mem_iovLoop h hne' hobj' (hsleeps'.trans hsleeps) hcan' (by omega) hl,
        stuck_cons_iff hopen hq hfills hopen' hq']
    simp [hq]
  · -- The loop stops at the first buffer.
    obtain ⟨l, hl, hnil⟩ := exists_log_iovLoop_cons s h hne le_rfl
    rw [hread] at hl hnil
    rw [hl, hnil hstop, hlog', hn, append_nil, sleepsAfterBytes_slept_append]
    refine iff_of_false (not_sleepsAfterBytes_stored k) ?_
    rintro ⟨hmessages, hopen, -, hsleep⟩
    obtain ⟨m, q, hq⟩ := exists_cons_of_ne_nil hmessages
    rw [hq, wouldSleep_cons_cons] at hsleep
    exact hnot m q hopen hq hsleep.1

/-- The result is the number of bytes stored, if there were any. -/
theorem count_stored {h : Handle} {s : IoState} {iovs : Addr} {count : UInt64} (hlog : s.log = [])
    (hmem : .stored ∈ ((ReadCall.readv iovs count).run h s).1.log) :
    ((ReadCall.readv iovs count).run h s).2 = ((ReadCall.readv iovs count).run h s).1.log.count
    .stored := by
  rcases run_readv_cases h s iovs count with hsame | ⟨hcount, hcheck⟩
  · rw [hsame, hlog] at hmem
    simp at hmem
  rw [run_readv hcount hcheck] at hmem ⊢
  have hne : ∀ v ∈ fullIovecs (s.iovecs iovs (asInt count).toNat), v.2 ≠ 0 := fun v hv => by
    simpa using (mem_filter.1 hv).2
  obtain ⟨l, hl, hres⟩ := exists_log_iovLoop s h hne le_rfl
  rw [hl, hlog, nil_append] at hmem ⊢
  have hpos : l.count .stored ≠ 0 := fun h0 => count_eq_zero.1 h0 hmem
  omega

/-- **`sys_readv` on a pipe does not sleep once it has stored a byte**, and it returns the number of
bytes stored, exactly when the messages that it finds, once it is awake, do not fill its first
buffers one by one with another buffer left and the writing end open. -/
theorem readv_sleeps_only_before_bytes_iff (h : Handle) (mem : Addr → UInt8) (rights : Except Err UInt32)
    (ch : RingChannel) (side : Fin 2) (others : List (RingChannel → RingChannel)) (iovs : Addr)
    (count : UInt64) :
    let s : IoState := { mem := mem, rights := rights, obj := .channel ch side, sleeps := true, others := others }
    let r := (ReadCall.readv iovs count).run h s
    (¬ SleepsAfterBytes r.1.log ∧ (.stored ∈ r.1.log → r.2 = r.1.log.count .stored)) ↔
      ∀ buf cap ch', (ReadCall.readv iovs count).Reads s buf cap →
      (s.awake (readCap cap)).obj = .channel ch' side →
        ¬ ((ch'.e side).messages ≠ [] ∧ Stuck ch' side
          (fullIovecs (s.iovecs iovs (asInt count).toNat))) := by
  intro s r
  have hcount : .stored ∈ r.1.log → r.2 = r.1.log.count .stored := count_stored rfl
  rw [and_iff_left hcount]
  by_cases hex : ∃ buf cap, (ReadCall.readv iovs count).Reads s buf cap
  · obtain ⟨buf, cap, hreads⟩ := hex
    obtain ⟨ch₁, hobj⟩ := awake_obj (s := s) (readCap cap) rfl
    rw [sleepsAfterBytes_iff rfl rfl hreads hobj]
    constructor
    · intro hnot buf' cap' ch' hreads' hobj'
      obtain ⟨rfl, rfl⟩ := hreads.unique hreads'
      obtain ⟨rfl, -⟩ := IoObject.channel.inj (hobj.symm.trans hobj')
      exact hnot
    · intro hnot
      exact hnot buf cap ch₁ hreads hobj
  · have hnot : ∀ buf cap, ¬ (ReadCall.readv iovs count).Reads s buf cap :=
      fun buf cap hr => hex ⟨buf, cap, hr⟩
    have hsame : r.1.log = [] := congrArg IoState.log (run_of_not_reads _ h s hnot)
    refine iff_of_true ?_ fun buf cap _ hr => absurd hr (hnot buf cap)
    rw [hsame]
    exact not_sleepsAfterBytes_stored 0

/-- With one message of four bytes in the pipe, the second read sleeps. -/
theorem readv_sleeps_with_bytes :
    let s : IoState :=
      { mem := twoVectors, rights := .ok nxRightRead, obj := .channel oneMessage 0, sleeps := true,
        others := [] }
    SleepsAfterBytes ((ReadCall.readv (mmuUserWindowBase + 64) 2).run 1 s).1.log := by
  intro s
  have hlog : ((ReadCall.readv (mmuUserWindowBase + 64) 2).run 1 s).1.log =
      [.stored, .stored, .stored, .stored, .slept] := by
    decide +kernel
  exact ⟨[.stored, .stored, .stored, .stored], [], hlog, by simp⟩

end ReadCall

end Nonux.Syscall.Io
