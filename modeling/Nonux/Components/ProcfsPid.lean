import Nonux.Components.Procfs

/-!
# The pid in a path of procfs

`procfs_parse_pid` computes modulo 2³² and takes a step for an overflow only if the number got
smaller. That does not find every overflow: the digits of 5000000000 read as 705032704. The leading
digits of a number, read modulo 2³², show which overflows are found (`procfsParseDigits_eq`).
-/

namespace Nonux.Components

open Nonux.Framework Nonux.Syscall List

/-- One more digit. -/
def addDigit (n : ℕ) (b : UInt8) : ℕ := 10 * n + (b.toNat - 48)

/-- The number that digits stand for. -/
def decimalValue (ds : Path) : ℕ := ds.foldl addDigit 0

/-- The numbers that the leading digits stand for never get smaller modulo 2³². -/
def RisesMod (n : ℕ) (ds : Path) : Prop :=
  (ds.scanl addDigit n).IsChain fun u v => u % 2 ^ 32 ≤ v % 2 ^ 32

instance decidableRisesMod (n : ℕ) (ds : Path) : Decidable (RisesMod n ds) :=
  inferInstanceAs (Decidable (List.IsChain _ _))

/-- The process whose pid is written in decimal. -/
def namedProcess (ps : Procs) (ds : Path) : Option Process :=
  if decimalValue ds < 2 ^ 32 then
    (nxProcessLookupByPid ps (.ofNat (decimalValue ds))).bind ps.slot
  else none

variable {ds rest : Path} {b : UInt8}

theorem risesMod_cons (n : ℕ) : RisesMod n (b :: ds) ↔ n % 2 ^ 32 ≤ addDigit n b % 2 ^ 32 ∧
    RisesMod (addDigit n b) ds := by
  unfold RisesMod
  cases ds <;> simp [scanl_cons]

theorem le_foldl_addDigit (n : ℕ) (ds : Path) : n ≤ ds.foldl addDigit n := by
  induction ds generalizing n with
  | nil => rfl
  | cons b ds ih => exact (show n ≤ addDigit n b by unfold addDigit; omega).trans (ih _)

/-- Below 2³² nothing overflows. -/
theorem risesMod_of_lt {n : ℕ} (h : ds.foldl addDigit n < 2 ^ 32) : RisesMod n ds := by
  induction ds generalizing n with
  | nil => exact isChain_singleton _
  | cons b ds ih =>
    have hle := le_foldl_addDigit (addDigit n b) ds
    refine (risesMod_cons n).mpr ⟨?_, ih h⟩
    rw [foldl_cons] at h
    rw [Nat.mod_eq_of_lt (hle.trans_lt h)]
    exact (Nat.mod_le _ _).trans (le_foldl_addDigit n [b])

theorem ofNat_addDigit (n : ℕ) (hb : 48 ≤ b) :
    UInt32.ofNat n * 10 + (b - 48).toUInt32 = .ofNat (addDigit n b) := by
  have hsub : (b - 48).toNat = b.toNat - 48 := UInt8.toNat_sub_of_le _ _ hb
  have hten : (10 : UInt32).toNat = 10 := rfl
  rw [← UInt32.toNat_inj]
  simp only [addDigit, UInt32.toNat_add, UInt32.toNat_mul, UInt32.toNat_ofNat',
    UInt8.toNat_toUInt32, hsub, hten]
  omega

/-- The loop finds an overflow if the number got smaller. -/
theorem procfsParseDigits_eq (hds : ∀ b ∈ ds, 48 ≤ b ∧ b ≤ 57)
    (hrest : rest = [] ∨ rest.head? = some slash) (n : ℕ) :
    procfsParseDigits (.ofNat n) (ds ++ rest) =
      if RisesMod n ds then some (.ofNat (ds.foldl addDigit n), rest) else none := by
  induction ds generalizing n with
  | nil =>
    rw [if_pos (show RisesMod n [] from isChain_singleton _), nil_append, foldl_nil]
    rcases hrest with rfl | hslash
    · rfl
    · obtain ⟨tail, rfl⟩ := head?_eq_some_iff.mp hslash
      rfl
  | cons b ds ih =>
    have hb := hds b mem_cons_self
    have hlt : UInt32.ofNat (addDigit n b) < .ofNat n ↔ ¬ n % 2 ^ 32 ≤ addDigit n b % 2 ^ 32 := by
      simp [UInt32.lt_iff_toNat_lt]
    rw [cons_append, procfsParseDigits, if_pos hb]
    simp only [ofNat_addDigit n hb.1, ih fun b hb => hds b (mem_cons_of_mem _ hb), risesMod_cons,
      foldl_cons, hlt]
    by_cases hrise : n % 2 ^ 32 ≤ addDigit n b % 2 ^ 32
    · simp only [hrise, not_true, if_false, true_and]
    · simp only [hrise, not_false_eq_true, if_true, false_and, if_false]

theorem procfsParsePid_eq (hne : ds ≠ []) (hds : ∀ b ∈ ds, 48 ≤ b ∧ b ≤ 57)
    (hrest : rest = [] ∨ rest.head? = some slash) :
    procfsParsePid (procPath ++ slash :: ds ++ rest) = if RisesMod 0 ds then
      some (.ofNat (decimalValue ds), rest) else none := by
  obtain ⟨b, tail, rfl⟩ := exists_cons_of_ne_nil hne
  have heq := procfsParseDigits_eq hds hrest 0
  have hdrop : (procPath ++ slash :: (b :: tail) ++ rest).drop 6 = b :: (tail ++ rest) := rfl
  rw [procfsParsePid, if_neg fun h => h rfl, hdrop]
  exact (if_pos (hds b mem_cons_self)).trans heq

/-- What is written is read back. -/
theorem decimalValue_decimal (n : ℕ) :
    decimalValue (decimal n) = n ∧ decimal n ≠ [] ∧ ∀ b ∈ decimal n, 48 ≤ b ∧ b ≤ 57 := by
  have hdigit : ∀ c ∈ Nat.toDigits 10 n, 48 ≤ c.toNat ∧ c.toNat ≤ 57 := fun c hc =>
    Char.isDigit_iff_toNat.mp (Nat.isDigit_of_mem_toDigits (by decide) (by decide) hc)
  refine ⟨?_, by simp [decimal, Nat.toDigits_ne_nil], ?_⟩
  · conv_rhs => rw [← Nat.ofDigitChars_ten_toDigits (n := n), Nat.ofDigitChars_eq_foldl]
    rw [decimalValue, decimal, foldl_map]
    refine foldl_ext _ _ _ fun v c hc => ?_
    have := hdigit c hc
    simp [addDigit, Nat.mod_eq_of_lt (show c.toNat < 256 by omega)]
  · intro b hb
    obtain ⟨c, hc, rfl⟩ := mem_map.mp hb
    have := hdigit c hc
    simp [UInt8.le_iff_toNat_le, Nat.mod_eq_of_lt (show c.toNat < 256 by omega), this]

theorem procfsOpStat_ok {ps : Procs} {path : Path} {st : FsStat} (h : procfsOpStat ps path = .ok st)
    (hroot : ¬ procfsPathIsRoot path) :
    ∃ pid tail p, procfsParsePid path = some (pid, tail) ∧
      (nxProcessLookupByPid ps pid).bind ps.slot = some p ∧
      (st.kind = .dir ∨ st.size = (procfsRenderStat p procfsStatBufsz).length) := by
  unfold procfsOpStat at h
  split_ifs at h
  split at h
  · cases h
  next pid tail hparse =>
    split at h
    · cases h
    next p hp =>
      refine ⟨pid, tail, p, hparse, hp, ?_⟩
      split_ifs at h <;> cases h
      · exact .inl rfl
      · right
        dsimp only

/-- **A pid is parsed right** just when its digits are of a number below 2³², or the leading digits
get smaller somewhere modulo 2³². Then open and stat are about the process whose pid is in the path.
The names that readdir gives are always parsed right. -/
theorem parse_pid_iff (ds rest : Path) (hne : ds ≠ []) (hds : ∀ b ∈ ds, 48 ≤ b ∧ b ≤ 57)
    (hrest : rest = [] ∨ rest.head? = some slash) :
    ((procfsParsePid (procPath ++ slash :: ds ++ rest) =
          if decimalValue ds < 2 ^ 32 then some (.ofNat (decimalValue ds), rest) else none) ∧
        (∀ ps st, procfsOpStat ps (procPath ++ slash :: ds ++ rest) = .ok st →
          ∃ p, namedProcess ps ds = some p ∧
          (st.kind = .dir ∨ st.size = (procfsRenderStat p procfsStatBufsz).length)) ∧
        (∀ s ps flags, (procfsOpOpen s ps (procPath ++ slash :: ds ++ rest) flags).2 ≠ 0 → ∃ p i,
          namedProcess ps ds = some p ∧
          s.opens.alloc { buf := procfsRenderStat p procfsStatBufsz } =
            some ((procfsOpOpen s ps (procPath ++ slash :: ds ++ rest) flags).1.opens, i)) ↔
      (decimalValue ds < 2 ^ 32 ∨ ¬ RisesMod 0 ds)) ∧
    ∀ pid : UInt32, procfsParsePid (procPath ++ slash :: decimal pid.toNat ++ rest) =
      some (pid, rest) := by
  refine ⟨⟨fun h => ?_, fun h => ?_⟩, fun pid => ?_⟩
  · by_contra hnot
    rw [not_or, not_not] at hnot
    have hparse := h.1
    rw [procfsParsePid_eq hne hds hrest, if_pos hnot.2, if_neg hnot.1] at hparse
    cases hparse
  · have hparse : procfsParsePid (procPath ++ slash :: ds ++ rest) =
        if decimalValue ds < 2 ^ 32 then some (.ofNat (decimalValue ds), rest) else none := by
      rw [procfsParsePid_eq hne hds hrest]
      refine if_congr ?_ rfl rfl
      exact ⟨fun hrise => h.resolve_right (not_not.mpr hrise), risesMod_of_lt⟩
    have hnamed {ps pid tail p}
      (hpid : procfsParsePid (procPath ++ slash :: ds ++ rest) = some (pid, tail))
        (hp : (nxProcessLookupByPid ps pid).bind ps.slot = some p) : namedProcess ps ds = some p := by
      rw [hparse] at hpid
      split_ifs at hpid with hlt
      cases hpid
      rwa [namedProcess, if_pos hlt]
    refine ⟨hparse, fun ps st hst => ?_, fun s ps flags hopen => ?_⟩
    · have hroot : ¬ procfsPathIsRoot (procPath ++ slash :: ds ++ rest) := by
        obtain ⟨b, tail, rfl⟩ := exists_cons_of_ne_nil hne
        simp [procfsPathIsRoot, procPath]
      obtain ⟨pid, tail, p, hpid, hp, hkind⟩ := procfsOpStat_ok hst hroot
      exact ⟨p, hnamed hpid hp, hkind⟩
    · rcases procfsOpOpen_eq s ps (procPath ++ slash :: ds ++ rest) flags with
        heq | ⟨pid, tail, p, opens, i, hpid, hp, halloc, heq⟩ <;> rw [heq] at hopen ⊢
      · exact absurd rfl hopen
      · exact ⟨p, i, hnamed hpid hp, halloc⟩
  · obtain ⟨hvalue, hne, hds⟩ := decimalValue_decimal pid.toNat
    have hlt := pid.toNat_lt
    rw [procfsParsePid_eq hne hds hrest,
      if_pos (risesMod_of_lt (by rw [← decimalValue, hvalue]; exact hlt)), hvalue,
        UInt32.ofNat_toNat]

theorem parse_pid_5000000000 :
    procfsParsePid (procPath ++ slash :: decimal 5000000000) = some (705032704, []) := by decide

theorem parse_pid_iff_42 :
    RisesMod 0 [52, 50] ∧ procfsParsePid (procPath ++ slash :: [52, 50] ++ []) = some (42, []) :=
  ⟨by decide, ((parse_pid_iff [52, 50] [] (by decide) (by simp) (.inl rfl)).1.mpr (.inl (by decide))).1⟩

end Nonux.Components
