import Nonux.Framework.Abi
import Nonux.Lib.BitArray
import Nonux.Lib.Loop

/-!
# The program break and anonymous memory (`framework/syscall.c`)

A process has two arenas in its window. `sys_brk` moves a mark between the bounds of the heap.
`sys_mmap` takes whole pages from the other one, from below, and nothing is given back before the
next exec.

## What is proved

`Sound` says what is asked of a call: memory that is new, in the arena and zero, and a break within
its bounds. A run from exec is sound just when no request is for so much that rounding it up to
whole pages wraps (`sound_iff_rounds`): such a request succeeds and gets no bytes at all
(`mmap_wraps`).
-/

namespace Nonux.Syscall

open Nonux.Framework Nonux.Lib

/-! ### The two calls -/

/-- `NX_PROCESS_HEAP_OFFSET` -/
def nxProcessHeapOffset : UInt64 := (6 : UInt64) <<< 20

/-- `NX_PROCESS_HEAP_LIMIT` -/
def nxProcessHeapLimit : UInt64 := ((7 : UInt64) <<< 20) + ((1 : UInt64) <<< 19)

/-- `NX_PROCESS_MMAP_OFFSET` -/
def nxProcessMmapOffset : UInt64 := (2 : UInt64) <<< 20

/-- `NX_PROCESS_MMAP_LIMIT` -/
def nxProcessMmapLimit : UInt64 := (5 : UInt64) <<< 20

/-- `NX_MAP_FIXED` -/
def nxMapFixed : UInt32 := 0x10

/-- `NX_MAP_ANONYMOUS` -/
def nxMapAnonymous : UInt32 := 0x20

/-- What the two calls use of a process, and its memory. -/
structure ProcMem where
  brkAddr : Addr
  mmapBump : Addr
  mem : Addr → UInt8

/-- The process after `sys_exec`, with whatever is in memory. -/
def ProcMem.exec (mem : Addr → UInt8) : ProcMem where
  brkAddr := mmuUserWindowBase + nxProcessHeapOffset
  mmapBump := mmuUserWindowBase + nxProcessMmapOffset
  mem

/-- `sys_brk` -/
def sysBrk (p : ProcMem) (requested : UInt64) : ProcMem × Addr :=
  let lo := mmuUserWindowBase + nxProcessHeapOffset
  let hi := mmuUserWindowBase + nxProcessHeapLimit
  if requested = 0 then (p, p.brkAddr)
  else if requested < lo ∨ requested > hi then (p, p.brkAddr)
  else ({ p with brkAddr := requested }, requested)

/-- `memset` with 0. -/
def zeroFill (mem : Addr → UInt8) (va : Addr) (n : UInt64) : Addr → UInt8 := fun a =>
  if va.toNat ≤ a.toNat ∧ a.toNat < va.toNat + n.toNat then 0 else mem a

/-- What `sys_mmap` refuses before it looks at the arena. -/
def mmapArgsBad (length flags fd offset : UInt64) : Bool :=
  length == 0 || fd.toUInt32 != 0xFFFFFFFF || offset != 0 || flags.toUInt32 &&& nxMapAnonymous == 0 ||
    flags.toUInt32 &&& nxMapFixed != 0

/-- The length in whole pages. -/
def roundUpPage (length : UInt64) : UInt64 :=
  let page : UInt64 := 4096
  (length + page - 1) &&& ~~~(page - 1)

/-- `sys_mmap`, of the arguments that it uses. -/
def sysMmap (p : ProcMem) (length flags fd offset : UInt64) : ProcMem × Except Err Addr :=
  if mmapArgsBad length flags fd offset then (p, .error .einval)
  else
    let want := roundUpPage length
    let lo := mmuUserWindowBase + nxProcessMmapOffset
    let hi := mmuUserWindowBase + nxProcessMmapLimit
    let p := if p.mmapBump < lo ∨ p.mmapBump > hi then { p with mmapBump := lo } else p
    if want > hi - p.mmapBump then (p, .error .enomem)
    else
      let va := p.mmapBump
      ({ p with mmapBump := p.mmapBump + want, mem := zeroFill p.mem va want }, .ok va)

/-! ### Runs -/

/-- What a process does: the two calls, and stores to its memory. -/
inductive MapStep where
  | mmap (length flags fd offset : UInt64)
  | brk (requested : UInt64)
  | store (a : Addr) (b : UInt8)

/-- The process, and the ranges that it was given: the address and the length that it had asked
for. -/
structure MapRun where
  proc : ProcMem
  ranges : List (Addr × UInt64) := []

namespace MapRun

def step (x : MapRun) : MapStep → MapRun
  | .mmap length flags fd offset =>
    match sysMmap x.proc length flags fd offset with
    | (p, .ok va) => { proc := p, ranges := (va, length) :: x.ranges }
    | (p, .error _) => { x with proc := p }
  | .brk requested => { x with proc := (sysBrk x.proc requested).1 }
  | .store a b => { x with proc := { x.proc with mem := Function.update x.proc.mem a b } }

/-- The break is within the bounds of the heap. -/
def InHeap (p : ProcMem) : Prop :=
  (mmuUserWindowBase + nxProcessHeapOffset).toNat ≤ p.brkAddr.toNat ∧
    p.brkAddr.toNat ≤ (mmuUserWindowBase + nxProcessHeapLimit).toNat

/-- A range that a process gets, after it has some others: it is in the arena, none of it was given
before, and it is zero. -/
structure Fresh (x : MapRun) (p : ProcMem) (va : Addr) (length : UInt64) : Prop where
  low : (mmuUserWindowBase + nxProcessMmapOffset).toNat ≤ va.toNat
  high : va.toNat + length.toNat ≤ (mmuUserWindowBase + nxProcessMmapLimit).toNat
  apart : ∀ r ∈ x.ranges, r.1.toNat + r.2.toNat ≤ va.toNat ∨ va.toNat + length.toNat ≤ r.1.toNat
  zeroed : ∀ a : Addr, va.toNat ≤ a.toNat → a.toNat < va.toNat + length.toNat → p.mem a = 0

/-- What is asked of a step. -/
def Sound (x : MapRun) (a : MapStep) : Prop :=
  InHeap (x.step a).proc ∧
    match a with
    | .mmap length flags fd offset =>
      ∀ va, (sysMmap x.proc length flags fd offset).2 = .ok va → Fresh x (x.step a).proc va length
    | .brk _ | .store _ _ => True

/-- A request that is not refused for its form can be rounded up. -/
def Rounds : MapStep → Prop
  | .mmap length flags fd offset => mmapArgsBad length flags fd offset = false →
      length.toNat + 4095 < 2 ^ 64
  | .brk _ | .store _ _ => True

/-- The invariant: what was given is below the mark. -/
structure Good (x : MapRun) : Prop where
  heap : InHeap x.proc
  low : (mmuUserWindowBase + nxProcessMmapOffset).toNat ≤ x.proc.mmapBump.toNat
  high : x.proc.mmapBump.toNat ≤ (mmuUserWindowBase + nxProcessMmapLimit).toNat
  below : ∀ r ∈ x.ranges, r.1.toNat + r.2.toNat ≤ x.proc.mmapBump.toNat

variable {x : MapRun}

theorem toNat_roundUpPage (length : UInt64) :
    (roundUpPage length).toNat = (length.toNat + 4095) % 2 ^ 64 / 4096 * 4096 := by
  have hmask : (~~~((4096 : UInt64) - 1)).toNat = 2 ^ 64 - 2 ^ 12 := by decide
  have hsum : (length + 4096 - 1).toNat = (length.toNat + 4095) % 2 ^ 64 := by
    rw [UInt64.toNat_sub, UInt64.toNat_add]
    simp
    omega
  rw [roundUpPage, UInt64.toNat_and, hmask, hsum]
  exact BitArray.and_mask_eq (Nat.mod_lt _ (Nat.two_pow_pos 64)) (by norm_num)

/-- The bounds of the two arenas, as numbers. -/
theorem bounds_eq :
    (mmuUserWindowBase + nxProcessMmapOffset).toNat = 0x48200000 ∧
    (mmuUserWindowBase + nxProcessMmapLimit).toNat = 0x48500000 ∧
      (mmuUserWindowBase + nxProcessHeapOffset).toNat = 0x48600000 ∧
        (mmuUserWindowBase + nxProcessHeapLimit).toNat = 0x48780000 := by
  decide

/-- **What `sys_mmap` does** with the mark in the arena: it refuses and nothing is changed, or it
moves the mark. -/
theorem Good.sysMmap (h : Good x) (length flags fd offset : UInt64) :
    ((∃ e, sysMmap x.proc length flags fd offset = (x.proc, .error e)) ∧
        (mmapArgsBad length flags fd offset = true ∨ 0 < (roundUpPage length).toNat)) ∨
      mmapArgsBad length flags fd offset = false ∧
        x.proc.mmapBump.toNat + (roundUpPage length).toNat ≤
        (mmuUserWindowBase + nxProcessMmapLimit).toNat ∧ sysMmap x.proc length flags fd offset =
          ({ x.proc with
              mmapBump := x.proc.mmapBump + roundUpPage length
              mem := zeroFill x.proc.mem x.proc.mmapBump (roundUpPage length) },
              .ok x.proc.mmapBump) := by
  have hlow := h.low
  have hhigh := h.high
  have hin : ¬ (x.proc.mmapBump < mmuUserWindowBase + nxProcessMmapOffset ∨
      x.proc.mmapBump > mmuUserWindowBase + nxProcessMmapLimit) := by
    rw [gt_iff_lt, UInt64.lt_iff_toNat_lt, UInt64.lt_iff_toNat_lt]
    omega
  have hroom : (mmuUserWindowBase + nxProcessMmapLimit - x.proc.mmapBump).toNat =
      (mmuUserWindowBase + nxProcessMmapLimit).toNat - x.proc.mmapBump.toNat :=
    UInt64.toNat_sub_of_le _ _ (UInt64.le_iff_toNat_le.mpr hhigh)
  unfold Syscall.sysMmap
  cases hbad : mmapArgsBad length flags fd offset with
  | true => exact .inl ⟨⟨_, if_pos rfl⟩, .inl rfl⟩
  | false =>
    simp only [Bool.false_eq_true, if_false, if_neg hin]
    split_ifs with hwant
    · rw [gt_iff_lt, UInt64.lt_iff_toNat_lt] at hwant
      exact .inl ⟨⟨_, rfl⟩, .inr (by omega)⟩
    · rw [gt_iff_lt, UInt64.lt_iff_toNat_lt] at hwant
      exact .inr ⟨trivial, by omega, rfl⟩

theorem Good.fresh (h : Good x) {length : UInt64} (hround : length.toNat + 4095 < 2 ^ 64)
    (hfit : x.proc.mmapBump.toNat + (roundUpPage length).toNat ≤
      (mmuUserWindowBase + nxProcessMmapLimit).toNat) {p : ProcMem}
    (hmem : p.mem = zeroFill x.proc.mem x.proc.mmapBump (roundUpPage length)) :
    Fresh x p x.proc.mmapBump length := by
  have hwant := toNat_roundUpPage length
  refine ⟨h.low, by omega, fun r hr => .inl (h.below r hr), fun a hlow hhigh => ?_⟩
  rw [hmem]
  exact if_pos ⟨hlow, by omega⟩

theorem Good.step (h : Good x) {a : MapStep} (hround : Rounds a) : Good (x.step a) := by
  cases a with
  | mmap length flags fd offset =>
    rcases h.sysMmap length flags fd offset with ⟨⟨e, heq⟩, -⟩ | ⟨hargs, hfit, heq⟩
    · simp only [MapRun.step, heq]
      exact h
    · have hwant := toNat_roundUpPage length
      have hlt := hround hargs
      have hhigh := bounds_eq.2.1
      have hbump : (x.proc.mmapBump + roundUpPage length).toNat =
          x.proc.mmapBump.toNat + (roundUpPage length).toNat := by
        rw [UInt64.toNat_add]
        omega
      simp only [MapRun.step, heq]
      refine ⟨h.heap, ?_, ?_, fun r hr => ?_⟩
      · exact h.low.trans (by dsimp only; omega)
      · dsimp only
        omega
      · rcases List.mem_cons.mp hr with rfl | hr
        · dsimp only
          omega
        · have := h.below r hr
          dsimp only
          omega
  | brk requested =>
    simp only [MapRun.step, sysBrk]
    split_ifs with hzero hout
    · exact h
    · exact h
    · rw [not_or, UInt64.not_lt, gt_iff_lt, UInt64.not_lt, UInt64.le_iff_toNat_le,
        UInt64.le_iff_toNat_le] at hout
      exact ⟨hout, h.low, h.high, h.below⟩
  | store a b => exact { h with }

theorem Good.sound_step_iff (h : Good x) (a : MapStep) : Sound x a ↔ Rounds a := by
  refine ⟨fun hsound => ?_, fun hround => ⟨(h.step hround).heap, ?_⟩⟩
  · cases a with
    | mmap length flags fd offset =>
      intro hargs
      by_contra hlt
      -- Rounded up, the length is nothing, and so the request is granted.
      have hwant := toNat_roundUpPage length
      have hlength := length.toNat_lt
      rcases h.sysMmap length flags fd offset with ⟨-, hbad | hpos⟩ | ⟨-, -, heq⟩
      · rw [hargs] at hbad
        cases hbad
      · omega
      · have hhigh := (hsound.2 x.proc.mmapBump (by rw [heq])).high
        have := bounds_eq.2.1
        omega
    | brk requested => exact trivial
    | store a b => exact trivial
  · cases a with
    | mmap length flags fd offset =>
      intro va hva
      rcases h.sysMmap length flags fd offset with ⟨⟨e, heq⟩, -⟩ | ⟨hargs, hfit, heq⟩
      · rw [heq] at hva
        cases hva
      · rw [heq] at hva
        cases hva
        refine h.fresh (hround hargs) hfit ?_
        simp only [MapRun.step, heq]
    | brk requested => exact trivial
    | store a b => exact trivial

theorem good_exec (mem : Addr → UInt8) : Good { proc := .exec mem } :=
  ⟨⟨le_rfl, show (mmuUserWindowBase + nxProcessHeapOffset).toNat ≤ _ by decide⟩, le_rfl,
    show (mmuUserWindowBase + nxProcessMmapOffset).toNat ≤ _ by
      decide, fun _ hr => absurd hr List.not_mem_nil⟩

/-- **Memory for a process.** In a run from exec each call does what is asked of it just when no
request is for nearly all addresses: then every range is new, in the arena and zero, and the break
is within the heap. -/
theorem sound_iff_rounds (mem : Addr → UInt8) (steps : List MapStep) :
    RunOk step Sound { proc := .exec mem } steps ↔ RunOk step (fun _ => Rounds)
      { proc := .exec mem } steps := by
  have hvalid : RunOk step (fun _ _ => True) { proc := .exec mem } steps :=
    runOk_of_forall (fun _ _ => trivial) _ steps
  exact runOk_iff_of_inv Good (fun _ a _ h => h.sound_step_iff a)
    (fun _ _ _ hround h => h.step hround) hvalid (good_exec mem)

/-- A request for 2⁶⁴ - 1 bytes succeeds, and the next request gets the same address. -/
theorem mmap_wraps :
    (sysMmap (.exec fun _ => 0) 0xFFFFFFFFFFFFFFFF 0x22 0xFFFFFFFFFFFFFFFF 0).2 = .ok 0x48200000 ∧
      (sysMmap (sysMmap (.exec fun _ => 0) 0xFFFFFFFFFFFFFFFF 0x22 0xFFFFFFFFFFFFFFFF 0).1 4096 0x22
        0xFFFFFFFFFFFFFFFF 0).2 = .ok 0x48200000 ∧
      ¬ RunOk step Sound { proc := .exec fun _ => 0 }
      [.mmap 0xFFFFFFFFFFFFFFFF 0x22 0xFFFFFFFFFFFFFFFF 0] := by
  have hfirst : (sysMmap (.exec fun _ => 0) 0xFFFFFFFFFFFFFFFF 0x22 0xFFFFFFFFFFFFFFFF 0).2 = .ok
      0x48200000 := by
    decide +kernel
  refine ⟨hfirst, by decide +kernel, fun hsound => ?_⟩
  exact absurd (hsound.1.2 _ hfirst).high (by decide)

end MapRun

end Nonux.Syscall
