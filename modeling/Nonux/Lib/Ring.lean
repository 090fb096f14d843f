import Mathlib.Data.List.Basic
import Mathlib.Data.Nat.ModEq

/-!
# Rings

An array of `n` cells, used round and round: the place `k` is the cell `k % n`. `window cell n start
len` are the contents of the `len` places from `start` on. It grows at its end when a place is
written (`window_write`) and shrinks at its start (`window_succ`), and since places are counted
modulo `n` the start may be reduced (`window_mod`).
-/

namespace Nonux.Lib.Ring

open Function

variable {α : Type*} {cell : ℕ → α} {n start len : ℕ}

/-- The contents of the places `start` to `start + len`. -/
def window (cell : ℕ → α) (n start len : ℕ) : List α :=
  (List.range len).map fun k => cell ((start + k) % n)

@[simp] theorem length_window : (window cell n start len).length = len := by simp [window]

/-- Places are counted modulo the size of the ring. -/
theorem window_mod : window cell n (start % n) len = window cell n start len :=
  List.map_congr_left fun k _ => by rw [Nat.mod_add_mod]

/-- The first place. -/
theorem window_succ :
    window cell n start (len + 1) = cell (start % n) :: window cell n (start + 1) len := by
  rw [window, List.range_succ_eq_map, List.map_cons, List.map_map]
  refine congrArg₂ _ rfl (List.map_congr_left fun k _ => ?_)
  rw [Function.comp, show start + k.succ = start + 1 + k by omega]

/-- The last place. -/
theorem window_succ_last :
    window cell n start (len + 1) = window cell n start len ++ [cell ((start + len) % n)] := by
  simp [window, List.range_succ]

/-- Different places of a window are different cells. -/
theorem mod_ne (hlen : len < n) {k : ℕ} (hk : k < len) : (start + k) % n ≠ (start + len) % n := by
  intro h
  have hdvd : n ∣ start + len - (start + k) := (Nat.modEq_iff_dvd' (by omega)).1 h
  have := Nat.le_of_dvd (by omega) hdvd
  omega

/-- **A write past the end** of a window that does not fill the ring adds what is written. -/
theorem window_write (hlen : len < n) (x : α) :
    window (update cell ((start + len) % n) x) n start (len + 1) = window cell n start len ++ [x] := by
  rw [window_succ_last, update_self]
  refine congrArg (· ++ [x]) (List.map_congr_left fun k hk => ?_)
  exact update_of_ne (mod_ne hlen (List.mem_range.1 hk)) _ _

end Nonux.Lib.Ring
