import Nonux.Framework.Hooks

/-!
# Hooks that their owner takes for registered (`framework/hook.c`)

The owner of a hook knows what `nx_hook_register` has returned. After `NX_OK`, and after
`NX_EEXIST`, which stands for a hook that is registered already, it expects the hook to be called. A
hook that was unregistered during a dispatch is still in its chain until the sweep, and the guard
against duplicates finds it there: `nx_hook_register` returns `NX_EEXIST`, leaves the mark as it is,
and the sweep takes the hook out (`register_then_swept`).

`live_iff` says that this is all that can go wrong. `HookOwner` has beside the hooks what the last
operation on each one was.
-/

namespace Nonux.Framework

open Nonux.Lib Function

/-! ### Live hooks -/

namespace HookState

variable {hook : HookId → HookInfo} {s : HookState} {h y : HookId}

/-- The sweep takes dead hooks alone. -/
theorem finish_live (hs : Chained hook s) : s.finish.Live hook y ↔ s.Live hook y := by
  unfold finish
  dsimp only
  split_ifs
  · by_cases hy : y ∈ s.chain (hook y).point
    · simp +contextual [Live, sweepDead, hy, (hs.mem _ y hy).2.1]
    · refine iff_of_false (fun hl => hy ?_) fun hl => hy hl.1
      have hmem := hl.1
      dsimp only [sweepDead] at hmem
      split_ifs at hmem
      · exact List.mem_of_mem_filter hmem
      · exact hmem
  · exact Iff.rfl

theorem walk_live (hs : Chained hook s) (p : ℕ) (nxt : Option HookId) :
    (s.walk p nxt).Live hook y ↔ s.Live hook y := by
  unfold walk
  split
  · exact finish_live hs
  · exact Iff.rfl

/-- A dispatch registers nothing, and unregisters nothing. -/
theorem nxHookDispatch_live (hs : Chained hook s) (ctx : Option ℕ) :
    (s.nxHookDispatch ctx).Live hook y ↔ s.Live hook y := by
  unfold nxHookDispatch
  split
  · exact Iff.rfl
  · split_ifs
    · exact Iff.rfl
    · exact walk_live (s := { s with dispatching := s.dispatching + 1 }) { hs with } _ _

theorem callbackReturns_live (hs : Chained hook s) (abort : Bool) :
    (s.callbackReturns abort).Live hook y ↔ s.Live hook y := by
  unfold callbackReturns
  split
  · exact Iff.rfl
  · rename_i stack _
    split_ifs
    · exact finish_live (s := { s with stack }) { hs with }
    · exact walk_live (s := { s with stack }) { hs with } _ _

theorem nxHookRegister_live_of_ne (hy : y ≠ h) :
    (s.nxHookRegister hook (some h)).1.Live hook y ↔ s.Live hook y := by
  simp only [nxHookRegister]
  split_ifs
  · exact Iff.rfl
  · exact Iff.rfl
  · exact Iff.rfl
  · by_cases hp : (hook y).point = (hook h).point
    · simp [Live, hp, hy, mem_chainInsert]
    · simp [Live, hp, hy]

theorem nxHookUnregister_live_of_ne (hy : y ≠ h) :
    (s.nxHookUnregister hook (some h)).Live hook y ↔ s.Live hook y := by
  simp only [nxHookUnregister]
  split_ifs
  · exact Iff.rfl
  · simp [Live, hy]
  · by_cases hp : (hook y).point = (hook h).point
    · simp [Live, chainUnlink, hp, hy]
    · simp [Live, chainUnlink, hp, hy]
  · exact Iff.rfl

end HookState

/-! ### What the owners know -/

/-- The hooks, and those of which the last operation was an `nx_hook_register` that returned `NX_OK`
or `NX_EEXIST`. -/
structure HookOwner where
  hooks : HookState := {}
  trusted : HookId → Bool := fun _ => false

namespace HookOwner

variable (hook : HookId → HookInfo)

/-- What the result of a registration tells the owner. -/
def tells : Except Err Unit → Bool
  | .ok () => true
  | .error e => decide (e = .eexist)

def step (o : HookOwner) (a : HookStep) : HookOwner where
  hooks := o.hooks.step hook a
  trusted :=
    match a with
    | .register (some h) => update o.trusted h (tells (o.hooks.nxHookRegister hook (some h)).2)
    | .unregister (some h) => update o.trusted h false
    | _ => o.trusted

/-- The condition on a step: a hook that is registered is not one that waits for the sweep. -/
def Permitted (o : HookOwner) : HookStep → Prop
  | .register (some h) =>
    (hook h).hasFn = true → h ∈ o.hooks.chain (hook h).point → o.hooks.dead h = false
  | _ => True

instance (o : HookOwner) : DecidablePred (o.Permitted hook)
  | .register (some _) => inferInstanceAs (Decidable (_ → _ → _))
  | .register none | .unregister _ | .dispatch _ | .ret _ => inferInstanceAs (Decidable True)

variable {hook} {o : HookOwner}

/-- Whom the owners trust is live. -/
def Trustworthy (hook : HookId → HookInfo) (o : HookOwner) : Prop :=
  ∀ h, o.trusted h = true → o.hooks.Live hook h

/-- A registration leaves the hook live, unless it finds it dead. -/
theorem tells_imp_live_iff {s : HookState} (hok : HookState.HooksOk hook s) (h : HookId) :
    (tells (s.nxHookRegister hook (some h)).2 = true → (s.nxHookRegister hook (some h)).1.Live hook h) ↔
      ((hook h).hasFn = true → h ∈ s.chain (hook h).point → s.dead h = false) := by
  simp only [HookState.nxHookRegister]
  split_ifs with hfn hpoint hmem
  · simp [tells, hfn]
  · have hno : h ∉ s.chain (hook h).point := fun hin => absurd (hok.mem _ h hin).2.1 (not_lt.mpr hpoint)
    simp [tells, hno]
  · have hfn' : (hook h).hasFn = true := by simpa using hfn
    simp [tells, HookState.Live, hmem, hfn']
  · simp [tells, HookState.Live, HookState.mem_chainInsert, hmem]

/-- Where whom the owners trust is live, a step keeps it so just when it is permitted. -/
theorem trustworthy_step_iff (hok : HookState.HooksOk hook o.hooks) (hall : o.Trustworthy hook)
    (a : HookStep) : (o.step hook a).Trustworthy hook ↔ o.Permitted hook a := by
  cases a with
  | register x =>
    cases x with
    | none => exact iff_of_true hall trivial
    | some h =>
      refine Iff.trans ?_ (tells_imp_live_iff hok h)
      constructor
      · intro hnext htells
        exact hnext h ((update_self ..).trans htells)
      · intro hself y hy
        by_cases heq : y = h
        · subst heq
          exact hself ((update_self ..).symm.trans hy)
        · exact (HookState.nxHookRegister_live_of_ne heq).2
            (hall y ((update_of_ne heq ..).symm.trans hy))
  | unregister x =>
    cases x with
    | none => exact iff_of_true hall trivial
    | some h =>
      refine iff_of_true (fun y hy => ?_) trivial
      have heq : y ≠ h := fun heq => by
        subst heq
        exact absurd ((update_self ..).symm.trans hy) (by simp)
      exact (HookState.nxHookUnregister_live_of_ne heq).2 (hall y ((update_of_ne heq ..).symm.trans hy))
  | dispatch ctx =>
    exact iff_of_true (fun y hy => (HookState.nxHookDispatch_live hok.toChained ctx).2 (hall y hy))
      trivial
  | ret abort =>
    exact iff_of_true (fun y hy => (HookState.callbackReturns_live hok.toChained abort).2
      (hall y hy)) trivial

/-- **Registered means live.** In a run of hook operations, made from callbacks at any depth, every
hook whose last operation was a registration that returned `NX_OK` or `NX_EEXIST` is live all the
time, during dispatches and after them, just when no hook was registered while it waited for the
sweep. -/
theorem live_iff (hook : HookId → HookInfo) (steps : List HookStep) :
    (∀ pre, pre <+: steps → ∀ h, (runFrom (HookOwner.step hook) {} pre).trusted h = true →
        (runFrom (HookOwner.step hook) {} pre).hooks.Live hook h) ↔
      RunOk (HookOwner.step hook) (HookOwner.Permitted hook) {} steps :=
  runOk_iff_forall_prefix (fun o => HookState.HooksOk hook o.hooks) (Trustworthy hook)
    (fun _ a hok _ => hok.step a)
    (fun _ a hok hall => trustworthy_step_iff hok hall a) HookState.hooksOk_init
      (fun _ h => by simp at h) steps

/-- A hook unregisters itself during a dispatch, registers itself again and gets `NX_EEXIST`: it is
dead, and when the dispatch has returned it is no longer in the chain. -/
theorem register_then_swept :
    let hook : HookId → HookInfo := fun _ => ⟨0, 0, true⟩
    let during := [.register (some 1), .dispatch (some 0), .unregister (some 1), .register (some 1)]
    let o := runFrom (HookOwner.step hook) {} during
    let o' := runFrom (HookOwner.step hook) {} (during ++ [.ret false])
    o.trusted 1 = true ∧ ¬ o.hooks.Live hook 1 ∧ o'.trusted 1 = true ∧ o'.hooks.dispatching = 0 ∧
      o'.hooks.chain 0 = [] := by
  decide +kernel

end HookOwner

end Nonux.Framework
