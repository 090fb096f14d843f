import Nonux.Syscall.IoObjects

/-!
# Reads that fail (`framework/syscall.c`)

`sys_read`, `sys_readv` and `sys_channel_recv` take bytes from an object and copy them out
afterwards. When the copy fails, they return an error and the bytes are gone.
`error_consumes_nothing_iff` says when that cannot happen: what is there to be taken fits the buffer
it would be copied to.

`Untouched` says that an object is as it was, but for what others have done to it while the caller
slept.
-/

namespace Nonux.Syscall.Io

open Nonux.Framework Nonux.Components Nonux.Lib Nonux.Syscall.UserAccess

/-! ### Objects that nothing was taken from -/

/-- The object after others have done something to it. -/
def IoObject.after : IoObject → List (RingChannel → RingChannel) → IoObject
  | .channel ch side, acts => .channel (acts.foldl (fun ch act => act ch) ch) side
  | obj, _ => obj

/-- The object is what others have made of it. -/
def Untouched (s s' : IoState) : Prop :=
  ∃ k ≤ s.others.length, s'.others = s.others.drop k ∧ s'.obj = s.obj.after (s.others.take k)

namespace IoState

variable {s s₁ s₂ : IoState}

theorem untouched_self (h : s₁.others = s.others) (hobj : s₁.obj = s.obj) : Untouched s s₁ :=
  ⟨0, Nat.zero_le _, by simpa using h, by rw [hobj]; cases s.obj <;> rfl⟩

/-- Others have done as much, if as much is left for them to do. -/
theorem untouched_iff (h : Untouched s s₁) (hothers : s₂.others = s₁.others) :
    Untouched s s₂ ↔ s₂.obj = s₁.obj := by
  obtain ⟨k, hk, hdrop, hobj⟩ := h
  constructor
  · rintro ⟨k', hk', hdrop', hobj'⟩
    have hlen : (s.others.drop k).length = (s.others.drop k').length := by
      rw [← hdrop, ← hdrop', hothers]
    rw [List.length_drop, List.length_drop] at hlen
    obtain rfl : k = k' := by omega
    rw [hobj, hobj']
  · intro heq
    exact ⟨k, hk, hothers.trans hdrop, heq.trans hobj⟩

theorem await_eq (side : Fin 2) (cap : ℕ) (ch : RingChannel)
    (others : List (RingChannel → RingChannel)) :
    ∃ k ≤ others.length, (await side cap ch others).2.1 = others.drop k ∧
      (await side cap ch others).1 = (others.take k).foldl (fun ch act => act ch) ch := by
  induction others generalizing ch with
  | nil => exact ⟨0, le_rfl, rfl, rfl⟩
  | cons act others ih =>
    unfold await
    split_ifs with hagain
    · obtain ⟨k, hk, hdrop, hfold⟩ := ih (act ch)
      exact ⟨k + 1, Nat.succ_le_succ hk, hdrop, hfold⟩
    · exact ⟨0, Nat.zero_le _, rfl, rfl⟩

/-- While the caller sleeps, it takes nothing. -/
theorem untouched_awake (cap : ℕ) : Untouched s (s.awake cap) := by
  unfold awake
  split
  · next ch side _ hobj =>
    obtain ⟨k, hk, hdrop, hfold⟩ := await_eq side cap ch s.others
    exact ⟨k, hk, hdrop, by rw [hobj, IoObject.after]; dsimp only; rw [hfold]⟩
  · exact untouched_self rfl rfl

/-! ### What a read takes -/

/-- How many bytes a read takes, if it takes something. -/
def takes : IoObject → ℕ → Option ℕ
  | .channel ch side, cap =>
    if (ch.e side).closed then none
    else ((ch.e side).messages.head?.map List.length).filter fun n => decide (n ≤ cap)
  | .ramfs f, cap =>
    if f.flags &&& nxFsOpenRead = 0 then none
    else if f.size ≤ f.cursor then none
    else some (min (f.size - f.cursor) cap)
  | .procfs f, cap => if f.buf.length ≤ f.cursor then none else some (min (f.buf.length - f.cursor) cap)
  | .console c, cap => if c.rx = [] then none else some (min c.rx.length cap)
  | .stale, _ | .dir, _ => none

/-- A message is received, or the channel is as it was. -/
theorem nxChannelRecv_cases (ch : RingChannel) (side : Fin 2) {cap : ℕ} (hcap : cap ≠ 0) :
    (∃ m, takes (.channel ch side) cap = some m.length ∧
      (ch.nxChannelRecv (some side) (some cap)).2 = .ok m ∧
        (ch.nxChannelRecv (some side) (some cap)).1 ≠ ch) ∨
      (takes (.channel ch side) cap = none ∧ (ch.nxChannelRecv (some side) (some cap)).1 = ch ∧
        ∀ bytes, (ch.nxChannelRecv (some side) (some cap)).2 = .ok bytes → bytes = []) := by
  have hmoves := RingChannel.nxChannelRecv_moves ch side hcap
  generalize ch.nxChannelRecv (some side) (some cap) = r at hmoves
  cases hmoves with
  | closed hclosed => exact .inr ⟨by simp [takes, hclosed], rfl, by simp⟩
  | eof hopen hnil hpeer | again hopen hnil hpeer => exact .inr ⟨by simp [takes, hnil], rfl, by simp⟩
  | big hopen hq hbig => exact .inr ⟨by simp [takes, hq, hbig], rfl, by simp⟩
  | @message m q e' hopen hq hfits hq' hsame =>
    refine .inl ⟨m, by simp [takes, hopen, hq, hfits], rfl, fun hch => ?_⟩
    have hmessages : q = m :: q := by rw [← hq, ← hch, RingChannel.set_self, hq']
    exact absurd hmessages (by simp)

/-- A read has taken as many bytes as there were to take. If there is nothing to take, the object is
as it was, but for the end of the console's input. -/
theorem readObj_cases (obj : IoObject) {cap : ℕ} (hcap : cap ≠ 0) :
    (∃ bytes, (readObj obj cap).2 = .ok bytes ∧ takes obj cap = some bytes.length ∧
      (readObj obj cap).1 ≠ obj ∧ ¬ (obj.isConsole = true ∧ bytes = [])) ∨
      (takes obj cap = none ∧ (∀ bytes, (readObj obj cap).2 = .ok bytes → bytes = []) ∧
        ((∃ e, (readObj obj cap).2 = .error e) ∨ obj.isConsole = false →
          (readObj obj cap).1 = obj)) := by
  cases obj with
  | channel ch side =>
    rcases nxChannelRecv_cases ch side hcap with ⟨m, htakes, hok, hne⟩ | ⟨htakes, hsame, hnil⟩
    · exact .inl ⟨m, hok, htakes, fun heq => hne (IoObject.channel.inj heq).1,
        by simp [IoObject.isConsole]⟩
    · exact .inr ⟨htakes, hnil, fun _ => congrArg (IoObject.channel · side) hsame⟩
  | ramfs f =>
    simp only [readObj, ramfsOpRead, if_neg hcap, takes]
    split_ifs with hflags hend
    · simp
    · simp [slice, Nat.sub_eq_zero_of_le hend]
    · refine .inl ⟨_, rfl, by simp [slice], fun heq => ?_, by simp [IoObject.isConsole]⟩
      have hcursor := congrArg RamfsFd.cursor (IoObject.ramfs.inj heq)
      dsimp only at hcursor
      omega
  | procfs f =>
    simp only [readObj, procfsOpRead, if_neg hcap, takes]
    split_ifs with hend
    · simp [Nat.sub_eq_zero_of_le hend]
    · refine .inl ⟨_, rfl, by simp, fun heq => ?_, by simp [IoObject.isConsole]⟩
      have hcursor := congrArg ProcfsFd.cursor (IoObject.procfs.inj heq)
      dsimp only at hcursor
      omega
  | console c =>
    by_cases hrx : c.rx = []
    · simp only [readObj, nxConsoleReadNonblocking, if_neg hcap, takes, hrx, ne_eq,
        not_true_eq_false, ↓reduceIte]
      split_ifs <;> simp [IoObject.isConsole]
    · have hlen : 0 < c.rx.length := List.length_pos_iff.2 hrx
      simp only [readObj, nxConsoleReadNonblocking, if_neg hcap, takes, hrx, ne_eq,
        not_false_eq_true, ↓reduceIte]
      refine .inl ⟨_, rfl, by simp [min_comm], fun heq => ?_, by simp [hrx, hcap]⟩
      have hrest := congrArg (fun c : ConsoleIn => c.rx.length) (IoObject.console.inj heq)
      simp only [List.length_drop] at hrest
      omega
  | stale | dir => exact .inr ⟨rfl, by simp [readObj], fun _ => rfl⟩

/-- **A read of the object**: it fails having taken something exactly when there is something to
take, and it cannot be copied out. -/
theorem readInto_untouched_iff (s : IoState) (buf : Addr) {cap : ℕ} (hcap : cap ≠ 0) :
    ((s.readInto buf cap).2 < 0 → Untouched s (s.readInto buf cap).1) ↔
      ∀ n, takes (s.awake cap).obj cap = some n → userRangeCheck buf (UInt64.ofNat n) = .ok () := by
  have hiff : ∀ s' : IoState, s'.others = (s.awake cap).others →
      (Untouched s s' ↔ s'.obj = (s.awake cap).obj) :=
    fun s' h => untouched_iff (untouched_awake cap) h
  have hcons : (readObj (s.awake cap).obj cap).1.isConsole = (s.awake cap).obj.isConsole :=
    isConsole_readObj _ _
  unfold readInto
  rcases readObj_cases (s.awake cap).obj hcap with ⟨bytes, hr, htakes, hne, hin⟩ | ⟨htakes, hnil, hsame⟩
  · -- Something was taken. Whether it is lost depends on the copy.
    simp only [hr, deliver, hcons, if_neg hin, htakes, Option.some.injEq, forall_eq']
    cases hcheck : userRangeCheck buf (UInt64.ofNat bytes.length) with
    | error e => simp [e.code_neg, hiff, hne]
    | ok u => simp
  · -- Nothing was there to be taken.
    simp only [htakes, reduceCtorEq, false_implies, implies_true, iff_true]
    cases hr : (readObj (s.awake cap).obj cap).2 with
    | error e => simp [deliver, hiff, hsame (.inl ⟨e, hr⟩)]
    | ok bytes =>
      obtain rfl := hnil bytes hr
      unfold deliver
      by_cases hconsole : (s.awake cap).obj.isConsole = true
      · simp [hcons, hconsole]
      · have hkept := hsame (.inr (by simpa using hconsole))
        simp only [hcons, hconsole, Bool.false_eq_true, false_and, ↓reduceIte]
        cases hcheck : userRangeCheck buf (UInt64.ofNat ([] : List UInt8).length) with
        | error e => exact fun _ =>
            (hiff { s.awake cap with obj := (readObj (s.awake cap).obj cap).1 } rfl).2 hkept
        | ok u => simp

/-! ### The calls -/

/-- The handle can be read through: it resolves, it has the right, and it does not name a
directory. -/
def CanRead (s : IoState) : Prop :=
  s.obj.type ≠ .dir ∧ ∃ rights, s.rights = .ok rights ∧ rights &&& nxRightRead = nxRightRead

variable {cap : UInt64}

/-- `sys_read`, when the handle can be read through and the count is not 0, and otherwise. -/
theorem run_sysRead_of_canRead (hs : CanRead s) (h : Handle) (buf : Addr) (hcap : cap ≠ 0) :
    Prog.run step (sysRead h buf cap) s = s.readInto buf (readCap cap) := by
  obtain ⟨hdir, rights, hrights, hread⟩ := hs
  simp [run_sysRead, hcap, hrights, hread, hdir]

theorem run_sysRead_of_not (hs : ¬ (cap ≠ 0 ∧ CanRead s)) (h : Handle) (buf : Addr) :
    (Prog.run step (sysRead h buf cap) s).1 = s := by
  rw [run_sysRead]
  by_cases hcap : cap = 0
  · simp [hcap]
  rw [if_neg hcap]
  cases hrights : s.rights with
  | error e => rfl
  | ok rights =>
    dsimp only
    split_ifs with hread hdir
    · rfl
    · rfl
    · exact absurd ⟨hcap, hdir, rights, hrights, not_not.1 hread⟩ hs

theorem run_sysRead_neg (hs : ¬ CanRead s) (h : Handle) (buf : Addr) (hcap : cap ≠ 0) :
    (Prog.run step (sysRead h buf cap) s).2 < 0 := by
  rw [run_sysRead, if_neg hcap]
  cases hrights : s.rights with
  | error e => exact Err.code_neg .enoent
  | ok rights =>
    dsimp only
    split_ifs with hread hdir
    · exact Err.code_neg .eperm
    · exact Err.code_neg .einval
    · exact absurd ⟨hdir, rights, hrights, not_not.1 hread⟩ hs

/-- `sys_channel_recv`, likewise. It reads channels only. -/
theorem run_sysChannelRecv_of_canRead (hs : CanRead s) (htype : s.obj.type = .channel) (h : Handle)
    (buf : Addr) (hcap : cap ≠ 0) :
    Prog.run step (sysChannelRecv h buf cap) s = s.readInto buf (readCap cap) := by
  obtain ⟨-, rights, hrights, hread⟩ := hs
  simp [run_sysChannelRecv, hcap, hrights, hread, htype]

theorem run_sysChannelRecv_of_not (hs : ¬ (cap ≠ 0 ∧ CanRead s ∧ s.obj.type = .channel))
    (h : Handle) (buf : Addr) : (Prog.run step (sysChannelRecv h buf cap) s).1 = s := by
  rw [run_sysChannelRecv]
  by_cases hcap : cap = 0
  · simp [hcap]
  rw [if_neg hcap]
  cases hrights : s.rights with
  | error e => rfl
  | ok rights =>
    dsimp only
    split_ifs with htype hread
    · rfl
    · rfl
    · have htype : s.obj.type = .channel := not_not.1 htype
      exact absurd ⟨hcap, ⟨by rw [htype]; decide, rights, hrights, not_not.1 hread⟩, htype⟩ hs

theorem readCap_ne_zero (h : cap ≠ 0) : readCap cap ≠ 0 := by
  have : cap.toNat ≠ 0 := fun h0 => h (UInt64.toNat_inj.1 h0)
  rw [readCap_eq, nxChannelMsgMax]
  omega

end IoState

/-- A call that reads through a handle. -/
inductive ReadCall where
  | read (buf : Addr) (cap : UInt64)
  | readv (iovs : Addr) (count : UInt64)
  | channelRecv (buf : Addr) (cap : UInt64)

namespace ReadCall

open IoState

/-- The handler. -/
def handler (h : Handle) : ReadCall → UserM ℤ
  | .read buf cap => sysRead h buf cap
  | .readv iovs count => sysReadv h iovs count
  | .channelRecv buf cap => sysChannelRecv h buf cap

/-- The state that it starts in: `sys_channel_recv` does not sleep. -/
def start : ReadCall → IoState → IoState
  | .channelRecv _ _, s => { s with sleeps := false }
  | _, s => s

/-- The call. -/
def run (c : ReadCall) (h : Handle) (s : IoState) : IoState × ℤ :=
  Prog.run step (c.handler h) (c.start s)

/-- Where the call reads to first, and how much at most: nowhere, if it is refused or reads
nothing. -/
def Reads (s : IoState) (buf : Addr) (cap : UInt64) : ReadCall → Prop
  | .read buf' cap' => buf' = buf ∧ cap' = cap ∧ cap ≠ 0 ∧ CanRead s
  | .readv iovs count =>
    (0 < asInt count ∧ asInt count ≤ 16) ∧ userRangeCheck iovs (asSize (asInt count * 16)) = .ok () ∧
      (fullIovecs (s.iovecs iovs (asInt count).toNat)).head? = some (buf, cap) ∧ CanRead s
  | .channelRecv buf' cap' => buf' = buf ∧ cap' = cap ∧ cap ≠ 0 ∧ CanRead s ∧ s.obj.type = .channel

variable (c : ReadCall)

/-- Starting the call takes nothing. -/
theorem start_others (s : IoState) : (c.start s).others = s.others := by cases c <;> rfl

theorem start_obj (s : IoState) : (c.start s).obj = s.obj := by cases c <;> rfl

theorem untouched_start (s s' : IoState) : Untouched (c.start s) s' ↔ Untouched s s' := by
  rw [Untouched, Untouched, start_others, start_obj]

variable {s : IoState}

/-- `sys_readv`, once it has copied its vectors in. -/
theorem run_readv {h : Handle} {iovs : Addr} {count : UInt64}
    (hcount : 0 < asInt count ∧ asInt count ≤ 16)
    (hcheck : userRangeCheck iovs (asSize (asInt count * 16)) = .ok ()) :
    run (.readv iovs count) h s =
      Prog.run step (iovLoop (sysRead h) (fullIovecs (s.iovecs iovs (asInt count).toNat)) 0) s := by
  have hrun : run (.readv iovs count) h s = Prog.run step (sysIov (sysRead h) iovs count) s := rfl
  rw [hrun, run_sysIov, if_neg (by omega), if_neg (by omega), if_neg (by omega), hcheck]
  exact run_iovLoop_full _ _ _ _

/-- It is refused, or it goes on with its vectors. -/
theorem run_readv_cases (h : Handle) (s : IoState) (iovs : Addr) (count : UInt64) :
    (run (.readv iovs count) h s).1 = s ∨
      (0 < asInt count ∧ asInt count ≤ 16) ∧
      userRangeCheck iovs (asSize (asInt count * 16)) = .ok () := by
  have hrun : run (.readv iovs count) h s = Prog.run step (sysIov (sysRead h) iovs count) s := rfl
  rw [hrun, run_sysIov]
  split_ifs with hneg hzero hbig
  · exact .inl rfl
  · exact .inl rfl
  · exact .inl rfl
  · cases hcheck : userRangeCheck iovs (asSize (asInt count * 16)) with
    | error e => exact .inl rfl
    | ok u => exact .inr ⟨by omega, rfl⟩

theorem ne_zero_of_head? {l : List (Addr × UInt64)} {v : Addr × UInt64}
    (h : (fullIovecs l).head? = some v) : v.2 ≠ 0 := by
  simpa using (List.mem_filter.1 (List.mem_of_head? h)).2

/-- The first of its vectors decides: an error there is the result, and otherwise there is none. -/
theorem run_iovLoop_first {h : Handle} {v : Addr × UInt64} (hv : v.2 ≠ 0) (rest : List (Addr × UInt64)) :
    let first := Prog.run step (sysRead h v.1 v.2) s
    let all := Prog.run step (iovLoop (sysRead h) (v :: rest) 0) s
    (first.2 < 0 → all = first) ∧ (0 ≤ first.2 → 0 ≤ all.2) := by
  dsimp only
  have hlen : 0 < v.2.toNat := Nat.pos_of_ne_zero fun h0 => hv (UInt64.toNat_inj.1 h0)
  rw [run_iovLoop_cons s _ hv]
  refine ⟨fun hneg => by simp [hneg], fun hpos => ?_⟩
  dsimp only
  rw [if_neg (not_lt.2 hpos), zero_add]
  split_ifs with hshort
  · exact hpos
  · exact (run_iovLoop_pos _ _ _ (by omega)).le

/-- A call that is refused leaves everything as it is. -/
theorem run_of_not_reads (h : Handle) (s : IoState) (hnot : ∀ buf cap, ¬ c.Reads s buf cap) :
    (c.run h s).1 = c.start s := by
  cases c with
  | read buf cap => exact run_sysRead_of_not (fun hs => hnot buf cap ⟨rfl, rfl, hs⟩) h buf
  | channelRecv buf cap =>
    exact run_sysChannelRecv_of_not (s := { s with sleeps := false })
      (fun hs => hnot buf cap ⟨rfl, rfl, hs⟩) h buf
  | readv iovs count =>
    rcases run_readv_cases h s iovs count with hsame | ⟨hcount, hcheck⟩
    · exact hsame
    rw [run_readv hcount hcheck]
    cases hfull : fullIovecs (s.iovecs iovs (asInt count).toNat) with
    | nil => rfl
    | cons v rest =>
      have hhead : (fullIovecs (s.iovecs iovs (asInt count).toNat)).head? = some v := by rw [hfull]; rfl
      have hcan : ¬ CanRead s := fun hcan => hnot v.1 v.2 ⟨hcount, hcheck, hhead, hcan⟩
      have hv : v.2 ≠ 0 := ne_zero_of_head? hhead
      rw [(run_iovLoop_first (h := h) hv rest).1 (run_sysRead_neg hcan h v.1 hv)]
      exact run_sysRead_of_not (fun hs => hcan hs.2) h v.1

variable {buf : Addr} {cap : UInt64}

/-- And otherwise its first read decides. -/
theorem run_of_reads (h : Handle) (s : IoState) (hreads : c.Reads s buf cap) :
    let first := (c.start s).readInto buf (readCap cap)
    (first.2 < 0 → c.run h s = first) ∧ (0 ≤ first.2 → 0 ≤ (c.run h s).2) := by
  dsimp only
  cases c with
  | read buf' cap' =>
    obtain ⟨rfl, rfl, hcap, hcan⟩ := hreads
    have hrun : run (.read buf' cap') h s = s.readInto buf' (readCap cap') :=
      run_sysRead_of_canRead hcan h buf' hcap
    rw [hrun]
    exact ⟨fun _ => rfl, id⟩
  | channelRecv buf' cap' =>
    obtain ⟨rfl, rfl, hcap, hcan, htype⟩ := hreads
    have hrun : run (.channelRecv buf' cap') h s = readInto { s with sleeps := false } buf'
        (readCap cap') :=
      run_sysChannelRecv_of_canRead (s := { s with sleeps := false }) hcan htype h buf' hcap
    rw [hrun]
    exact ⟨fun _ => rfl, id⟩
  | readv iovs count =>
    obtain ⟨hcount, hcheck, hhead, hcan⟩ := hreads
    have hcap : cap ≠ 0 := ne_zero_of_head? hhead
    obtain ⟨rest, hfull⟩ := List.head?_eq_some_iff.1 hhead
    rw [run_readv hcount hcheck, hfull]
    have hfirst := run_iovLoop_first (h := h) (s := s) (v := (buf, cap)) hcap rest
    rwa [run_sysRead_of_canRead hcan h buf hcap] at hfirst

theorem Reads.cap_ne_zero {c : ReadCall} (h : c.Reads s buf cap) : cap ≠ 0 := by
  cases c with
  | read buf' cap' => exact h.2.2.1
  | channelRecv buf' cap' => exact h.2.2.1
  | readv iovs count => exact ne_zero_of_head? h.2.2.1

/-- A call has one first read at most. -/
theorem Reads.unique {c : ReadCall} {buf' : Addr} {cap' : UInt64} (h : c.Reads s buf cap)
    (h' : c.Reads s buf' cap') : buf' = buf ∧ cap' = cap := by
  cases c with
  | read b n | channelRecv b n => exact ⟨h'.1.symm.trans h.1, h'.2.1.symm.trans h.2.1⟩
  | readv iovs count =>
    have heq := h'.2.2.1.symm.trans h.2.2.1
    exact ⟨congrArg Prod.fst (Option.some.inj heq), congrArg Prod.snd (Option.some.inj heq)⟩

/-- **A read that returns an error has consumed nothing**, exactly when what it comes to take first,
if anything, can be copied to where it is to go. -/
theorem error_consumes_nothing_iff (c : ReadCall) (h : Handle) (s : IoState) :
    ((c.run h s).2 < 0 → Untouched s (c.run h s).1) ↔
      ∀ buf cap n, c.Reads s buf cap → takes ((c.start s).awake (readCap cap)).obj (readCap cap) =
      some n → userRangeCheck buf (UInt64.ofNat n) = .ok () := by
  by_cases hex : ∃ buf cap, c.Reads s buf cap
  · obtain ⟨buf, cap, hreads⟩ := hex
    obtain ⟨hfail, hgood⟩ := run_of_reads c h s hreads
    have hfirst := readInto_untouched_iff (c.start s) buf (readCap_ne_zero hreads.cap_ne_zero)
    constructor
    · intro hkeeps buf' cap' n hreads' htakes
      obtain ⟨rfl, rfl⟩ := hreads.unique hreads'
      refine hfirst.1 (fun hneg => ?_) n htakes
      rw [untouched_start, ← hfail hneg]
      exact hkeeps (by rwa [hfail hneg])
    · intro hfits hneg
      have hfirstneg : ((c.start s).readInto buf (readCap cap)).2 < 0 :=
        not_le.1 fun hpos => (hgood hpos).not_gt hneg
      rw [hfail hfirstneg, ← untouched_start]
      exact hfirst.2 (fun n htakes => hfits buf cap n hreads htakes) hfirstneg
  · have hnot : ∀ buf cap, ¬ c.Reads s buf cap := fun buf cap hr => hex ⟨buf, cap, hr⟩
    refine iff_of_true (fun _ => ?_) fun buf cap n hr => absurd hr (hnot buf cap)
    rw [run_of_not_reads c h s hnot]
    exact untouched_self (start_others c s) (start_obj c s)

/-- One message, of four bytes, waits in the ring of endpoint 0. -/
def oneMessage : RingChannel where
  e := fun side => if side = 0 then
    { tail := 1, ring := fun _ => [1, 2, 3, 4], tail_lt := next_lt 0 } else {}

/-- A read of it to address 0 fails, and the ring is empty afterwards. -/
theorem failed_read_takes_message :
    let s : IoState := { rights := .ok nxRightRead, obj := .channel oneMessage 0 }
    ((ReadCall.read 0 4).run 1 s).2 = Err.einval.code ∧
    ¬ Untouched s ((ReadCall.read 0 4).run 1 s).1 := by
  intro s
  have hrun : (ReadCall.read 0 4).run 1 s = s.readInto 0 (readCap 4) :=
    run_sysRead_of_canRead ⟨by decide, nxRightRead, rfl, by decide⟩ 1 0 (by decide)
  refine ⟨by rw [hrun]; decide +kernel, ?_⟩
  have hself : Untouched s s := untouched_self rfl rfl
  rw [untouched_iff hself (by rw [hrun]; rfl), hrun]
  intro hsame
  have hobj : (s.readInto 0 (readCap 4)).1.obj = .channel
    (oneMessage.nxChannelRecv (some 0) (some 4)).1 0 := rfl
  rw [hobj, IoObject.channel.injEq] at hsame
  exact absurd (congrArg (fun ch : RingChannel => (ch.e 0).head) hsame.1) (by decide +kernel)

end ReadCall

end Nonux.Syscall.Io
