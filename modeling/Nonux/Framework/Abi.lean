import Mathlib.Tactic

/-!
# The syscall boundary: status codes and user pointers

The codes of `framework/registry.h` that kernel functions return, and the check
that `copy_from_user` and `copy_to_user` (`framework/syscall.c`) make on a user
pointer before they touch the bytes behind it. Addresses and lengths are 64-bit
words, with the wrap-around the C code has.

`userRangeCheck_ok` says what the check is worth: every byte of a range it accepts
lies in the user window.
-/

namespace Nonux.Framework

/-! ### Status codes -/

/-- The error codes of `framework/registry.h`. -/
inductive Err where
  | einval
  | enomem
  | eexist
  | enoent
  | ebusy
  | estate
  | eloop
  | eabort
  | edeadline
  | eperm
  | eagain
  | enosys
  deriving DecidableEq, Repr

/-- The number a code is returned as. -/
def Err.code : Err → ℤ
  | .einval => -1
  | .enomem => -2
  | .eexist => -3
  | .enoent => -4
  | .ebusy => -5
  | .estate => -6
  | .eloop => -7
  | .eabort => -8
  | .edeadline => -9
  | .eperm => -10
  | .eagain => -11
  | .enosys => -38

theorem Err.code_neg (e : Err) : e.code < 0 := by cases e <;> decide

/-! ### The user window -/

/-- A virtual address. -/
abbrev Addr := UInt64

/-- `mmu_user_window_base()`: `USER_WINDOW_VA`. -/
def mmuUserWindowBase : Addr := 0x48000000

/-- `mmu_user_window_size()`: four 2 MiB blocks. -/
def mmuUserWindowSize : UInt64 := 0x800000

/-- The address lies in the user window. -/
def InUserWindow (a : Addr) : Prop :=
  mmuUserWindowBase.toNat ≤ a.toNat ∧ a.toNat < mmuUserWindowBase.toNat + mmuUserWindowSize.toNat

instance (a : Addr) : Decidable (InUserWindow a) := inferInstanceAs (Decidable (_ ∧ _))

/-- The checks `copy_from_user` and `copy_to_user` make before the `memcpy`, in their
order: a null pointer is refused even for no bytes, no bytes are accepted from
anywhere else, and otherwise the range must lie in the window. -/
def userRangeCheck (p : Addr) (len : UInt64) : Except Err Unit :=
  if p = 0 then .error .einval
  else if len = 0 then .ok ()
  else if p < mmuUserWindowBase ∨ p > mmuUserWindowBase + mmuUserWindowSize then .error .einval
  else if p + len < p ∨ p + len > mmuUserWindowBase + mmuUserWindowSize then .error .einval
  else .ok ()

/-- **What the check accepts**: every byte of the range is in the user window. -/
theorem userRangeCheck_ok {p : Addr} {len : UInt64} (h : userRangeCheck p len = .ok ()) (i : ℕ)
    (hi : i < len.toNat) : InUserWindow (p + UInt64.ofNat i) := by
  unfold userRangeCheck at h
  split_ifs at h with h0 hlen hbase hend
  · simp [hlen] at hi
  · have hlt := len.toNat_lt
    have hp := p.toNat_lt
    rw [not_or, UInt64.not_lt, gt_iff_lt, UInt64.not_lt] at hbase hend
    obtain ⟨hb, -⟩ := hbase
    obtain ⟨hw, he⟩ := hend
    rw [UInt64.le_iff_toNat_le] at hb hw he
    rw [UInt64.toNat_add] at hw he
    have hsum : (mmuUserWindowBase + mmuUserWindowSize).toNat =
        mmuUserWindowBase.toNat + mmuUserWindowSize.toNat := by decide
    have hi' : (UInt64.ofNat i).toNat = i := by
      rw [UInt64.toNat_ofNat']; exact Nat.mod_eq_of_lt (by omega)
    have hcap : mmuUserWindowBase.toNat + mmuUserWindowSize.toNat < 2 ^ 64 := by decide
    rw [hsum] at he
    -- `p + len` did not wrap, so neither does `p + i`.
    have hnowrap : p.toNat + len.toNat < 2 ^ 64 := by omega
    unfold InUserWindow
    rw [UInt64.toNat_add, hi']
    omega

end Nonux.Framework
