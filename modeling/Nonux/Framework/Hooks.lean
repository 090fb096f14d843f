import Mathlib.Data.List.TakeWhile
import Nonux.Lib.Loop
import Nonux.Framework.Abi

/-!
# Hook chains (`framework/hook.c`)

Hooks are registered at points, each with a priority. Dispatching a point calls the hooks in its
chain one after the other, and a callback may itself register and unregister hooks and dispatch
points. While anything is being dispatched, a hook that is unregistered stays in its chain and is
only marked dead; the dead ones are swept out when the outermost dispatch is over. A dispatch
remembers the hook after the one that it calls.

## The model

The chains are lists, and the `_next` of a hook is the one after it in its chain. The callbacks that
are running are a stack of frames, the innermost first. A run is a list of what they do: `register`
and `unregister`, `dispatch`, which calls the first hook, and `ret`, with which the innermost
callback returns and the next hook is called, or the dispatch is over.

Beside the state of the source there is since when each hook is registered.

`hooks_dispatched_in_order` is the result. It is told by an onlooker (`HookWatch`), who sees the
steps, the chains and the callbacks that are running, and keeps account of each dispatch. The
invariant says that the chain of a dispatch falls into two parts, with all that was called in the
first and the remembered hook at the head of the second (`Sees`).
-/

namespace Nonux.Framework

open Nonux.Lib Function List

/-! ### The model -/

/-- The address of a `struct nx_hook`. -/
abbrev HookId := ℕ

/-- `NX_HOOK_POINT_COUNT` -/
def nxHookPointCount : ℕ := 10

/-- What the owner of a `struct nx_hook` has put into it. -/
structure HookInfo where
  point : ℕ
  priority : ℤ
  /-- The function is not null. -/
  hasFn : Bool

/-- A dispatch whose callback is running. -/
structure HookFrame where
  point : ℕ
  /-- The saved `_next`. -/
  nxt : Option HookId
  /-- The hook whose callback is running. -/
  cur : HookId

/-- The chains and the callbacks that are running. -/
structure HookState where
  /-- `g_chains` -/
  chain : ℕ → List HookId := fun _ => []
  dead : HookId → Bool := fun _ => false
  /-- `g_dispatching` -/
  dispatching : ℕ := 0
  stack : List HookFrame := []
  /-- When the hook was registered last, and the time. -/
  since : HookId → ℕ := fun _ => 0
  clock : ℕ := 0

/-- What a callback does, or who starts it all. -/
inductive HookStep where
  | register (h : Option HookId)
  | unregister (h : Option HookId)
  /-- Dispatch a context, of some point, if it is not null. -/
  | dispatch (ctx : Option ℕ)
  /-- The innermost callback returns `NX_HOOK_ABORT`, or `NX_HOOK_CONTINUE`. -/
  | ret (abort : Bool)

namespace HookState

variable (hook : HookId → HookInfo)

/-- The chain with a hook put in: before the first one of a greater priority. -/
def chainInsert (chain : List HookId) (h : HookId) : List HookId :=
  chain.takeWhile (fun n => decide ((hook n).priority ≤ (hook h).priority)) ++
    h :: chain.dropWhile (fun n => decide ((hook n).priority ≤ (hook h).priority))

/-- `nx_hook_register` -/
def nxHookRegister (s : HookState) (h : Option HookId) : HookState × Except Err Unit :=
  match h with
  | none => (s, .error .einval)
  | some h =>
    if (hook h).hasFn = false then (s, .error .einval)
    else if nxHookPointCount ≤ (hook h).point then (s, .error .einval)
    else if h ∈ s.chain (hook h).point then (s, .error .eexist)
    else
      ({ s with
          dead := update s.dead h false
          chain := update s.chain (hook h).point (chainInsert hook (s.chain (hook h).point) h)
          since := update s.since h s.clock
          clock := s.clock + 1 }, .ok ())

/-- `chain_unlink` -/
def chainUnlink (s : HookState) (h : HookId) : HookState :=
  { s with
    chain := update s.chain (hook h).point ((s.chain (hook h).point).erase h)
    dead := update s.dead h false }

/-- `sweep_dead` -/
def sweepDead (s : HookState) : HookState :=
  { s with
    chain := fun p => if p < nxHookPointCount then (s.chain p).filter fun h => !s.dead h else s.chain p
    dead := fun h => s.dead h && (List.range nxHookPointCount).all fun p => decide (h ∉ s.chain p) }

/-- `nx_hook_unregister` -/
def nxHookUnregister (s : HookState) (h : Option HookId) : HookState :=
  match h with
  | none => s
  | some h =>
    if nxHookPointCount ≤ (hook h).point then s
    else if h ∉ s.chain (hook h).point then s
    else if 0 < s.dispatching then { s with dead := update s.dead h true }
    else s.chainUnlink hook h

/-- The end of `nx_hook_dispatch`, when the frame is off the stack. -/
def finish (s : HookState) : HookState :=
  let s : HookState := { s with dispatching := s.dispatching - 1 }
  if s.dispatching = 0 then s.sweepDead else s

/-- The part of a chain from a hook on. -/
def fromHook (chain : List HookId) : Option HookId → List HookId
  | none => []
  | some h => chain.dropWhile fun n => decide (n ≠ h)

/-- The loop of `nx_hook_dispatch` from the remembered hook on, as far as the next callback. -/
def walk (s : HookState) (p : ℕ) (nxt : Option HookId) : HookState :=
  match (fromHook (s.chain p) nxt).dropWhile s.dead with
  | [] => s.finish
  | h :: rest => { s with stack := ⟨p, rest.head?, h⟩ :: s.stack }

/-- The start of `nx_hook_dispatch`. -/
def nxHookDispatch (s : HookState) (ctx : Option ℕ) : HookState :=
  match ctx with
  | none => s
  | some p =>
    if nxHookPointCount ≤ p then s
    else walk { s with dispatching := s.dispatching + 1 } p (s.chain p).head?

/-- A callback returns. -/
def callbackReturns (s : HookState) (abort : Bool) : HookState :=
  match s.stack with
  | [] => s
  | f :: stack => if abort then finish { s with stack } else walk { s with stack } f.point f.nxt

def step (s : HookState) : HookStep → HookState
  | .register h => (s.nxHookRegister hook h).1
  | .unregister h => s.nxHookUnregister hook h
  | .dispatch ctx => s.nxHookDispatch ctx
  | .ret abort => s.callbackReturns abort

end HookState

/-! ### What is to hold -/

/-- One hook comes before another: by priority, and among equals by the time of registration. -/
def HookState.Before (hook : HookId → HookInfo) (s : HookState) (a b : HookId) : Prop :=
  (hook a).priority < (hook b).priority ∨ (hook a).priority = (hook b).priority ∧ s.since a < s.since b

/-- A dispatch, as an onlooker sees it. -/
structure Watched where
  point : ℕ
  /-- The hooks whose callbacks it has started. -/
  called : List HookId := []
  /-- The hooks that were registered at the start and at all times since. -/
  stayed : List HookId

/-- A dispatch that has returned called hooks in the order of the chain and once each, among them
every hook that was registered all the time, except for those that come after one that aborted. The
chain is that at the end, with the dead hooks. -/
structure Watched.Ok (w : Watched) (chain : List HookId) (aborted : Bool) : Prop where
  nodup : chain.Nodup
  order : w.called.Sublist chain
  complete : ∀ h ∈ w.stayed, h ∈ w.called ∨
    aborted = true ∧ ∃ a, w.called.getLast? = some a ∧ [a, h].Sublist chain

namespace HookState

/-- The hook is in its chain and not dead. -/
def Live (hook : HookId → HookInfo) (s : HookState) (h : HookId) : Prop :=
  h ∈ s.chain (hook h).point ∧ s.dead h = false

instance (hook : HookId → HookInfo) (s : HookState) (h : HookId) : Decidable (s.Live hook h) :=
  inferInstanceAs (Decidable (_ ∧ _))

/-- The hook whose callback is running. -/
def running (s : HookState) : Option HookId := s.stack.head?.map (·.cur)

end HookState

/-- The hooks and their onlooker. -/
structure HookWatch where
  hooks : HookState := {}
  /-- The dispatches that are going on, the innermost first. -/
  open_ : List Watched := []
  /-- Those that have returned, each with its chain and whether it was aborted. -/
  returned : List (Watched × List HookId × Bool) := []
  /-- The hooks that were called while they were not registered, or after one that aborted. -/
  strays : List HookId := []

namespace HookWatch

variable (hook : HookId → HookInfo)

/-- A dispatch has come so far: it has started a callback, or it has returned. -/
def follow (o : HookWatch) (s' : HookState) (w : Watched) (outer : List Watched)
    (started aborted : Bool) : HookWatch :=
  if started then
    { o with
      hooks := s', open_ := { w with called := w.called ++ s'.running.toList } :: outer
      strays := o.strays ++ s'.running.toList.filter fun h => aborted || decide (¬ s'.Live hook h) }
  else { o with hooks := s', open_ := outer, returned := o.returned ++
    [(w, o.hooks.chain w.point, aborted)] }

/-- A dispatch that does not move: hooks may have been unregistered. -/
def stay (s' : HookState) (w : Watched) : Watched :=
  { w with stayed := w.stayed.filter fun h => decide (s'.Live hook h) }

/-- A step: the stack shows whether a dispatch goes on. -/
def step (o : HookWatch) (a : HookStep) : HookWatch :=
  let s' := o.hooks.step hook a
  match a, o.open_.map (stay hook s') with
  | .dispatch (some p), outer =>
    if nxHookPointCount ≤ p then { o with hooks := s', open_ := outer }
    else
      o.follow hook s' (stay hook s'
        ⟨p, [], (o.hooks.chain p).filter fun h => decide (o.hooks.Live hook h)⟩) outer
        (decide (o.hooks.stack.length < s'.stack.length)) false
  | .ret abort, w :: outer =>
    o.follow hook s' w outer (decide (o.hooks.stack.length ≤ s'.stack.length)) abort
  | _, outer => { o with hooks := s', open_ := outer }

end HookWatch

namespace HookState

variable {hook : HookId → HookInfo} {s : HookState}

/-- The chains are in order. -/
structure Chained (hook : HookId → HookInfo) (s : HookState) : Prop where
  mem : ∀ p, ∀ h ∈ s.chain p, (hook h).point = p ∧ p < nxHookPointCount ∧ s.since h < s.clock
  nodup : ∀ p, (s.chain p).Nodup
  sorted : ∀ p, (s.chain p).Pairwise (s.Before hook)

/-- The invariant: every dispatch is counted, and while there is none there are no dead hooks in the
chains. -/
structure HooksOk (hook : HookId → HookInfo) (s : HookState) : Prop extends Chained hook s where
  counted : s.dispatching = s.stack.length
  swept : s.stack = [] → ∀ p, ∀ h ∈ s.chain p, s.dead h = false

/-! ### Registering -/

/-- A hook that is put into the chain goes to one of the parts, but not before the hook to be called
next. -/
theorem split_insert {pre post l₁ l₂ : List HookId} (h : pre ++ post = l₁ ++ l₂) (x : HookId) :
    ∃ pre' post', l₁ ++ x :: l₂ = pre' ++ post' ∧ post'.head? = post.head? ∧ pre.Sublist pre' ∧
      ∀ y ∈ pre', y = x ∨ y ∈ pre := by
  rcases append_eq_append_iff.1 h with ⟨c, rfl, rfl⟩ | ⟨c, rfl, rfl⟩
  · cases c with
    | nil =>
      refine ⟨pre ++ [x], l₂, by simp, by simp, by simp, fun y hy => ?_⟩
      rw [mem_append, mem_singleton] at hy
      exact hy.symm
    | cons n c => exact ⟨pre, n :: c ++ x :: l₂, by simp, rfl, List.Sublist.refl _, fun y hy => .inr hy⟩
  · refine ⟨l₁ ++ x :: c, post, by simp, rfl, by simp, fun y hy => ?_⟩
    simp only [mem_append, mem_cons] at hy ⊢
    tauto

variable {l : List HookId} {x : HookId}

theorem mem_chainInsert {y : HookId} : y ∈ chainInsert hook l x ↔ y = x ∨ y ∈ l := by
  generalize hP : (fun n => decide ((hook n).priority ≤ (hook x).priority)) = P
  rw [chainInsert, hP]
  nth_rewrite 3 [← takeWhile_append_dropWhile (p := P) (l := l)]
  simp only [mem_append, mem_cons]
  tauto

theorem nodup_chainInsert (hl : l.Nodup) (hx : x ∉ l) : (chainInsert hook l x).Nodup := by
  rw [chainInsert, nodup_middle, takeWhile_append_dropWhile]
  exact nodup_cons.2 ⟨hx, hl⟩

variable {s' : HookState}

/-- A hook goes behind those that it does not come before. -/
theorem sorted_chainInsert (hl : l.Pairwise (s.Before hook))
    (hold : ∀ h ∈ l, s'.since h = s.since h ∧ s.since h < s'.since x) :
    (chainInsert hook l x).Pairwise (s'.Before hook) := by
  have hl' : l.Pairwise (s'.Before hook) :=
    hl.imp_of_mem fun ha hb hab => by
      simp only [Before] at hab ⊢
      rwa [(hold _ ha).1, (hold _ hb).1]
  rw [chainInsert]
  generalize hP : (fun n => decide ((hook n).priority ≤ (hook x).priority)) = P
  rw [← takeWhile_append_dropWhile (p := P) (l := l), pairwise_append] at hl'
  obtain ⟨htake, hdrop, hcross⟩ := hl'
  refine pairwise_append.2 ⟨htake, pairwise_cons.2 ⟨fun b hb => .inl ?_, hdrop⟩, fun a ha b hb => ?_⟩
  · -- All that comes after the place has a greater priority, since the first has.
    cases hrest : l.dropWhile P with
    | nil => simp [hrest] at hb
    | cons n rest =>
      have hn : (hook x).priority < (hook n).priority := by
        have hhead := head?_dropWhile_not P l
        rw [hrest] at hhead
        simpa [← hP] using hhead
      rw [hrest] at hb hdrop
      rcases mem_cons.1 hb with rfl | hb
      · exact hn
      · rcases (pairwise_cons.1 hdrop).1 b hb with hlt | ⟨heq, -⟩
        · exact hn.trans hlt
        · exact heq ▸ hn
  · rcases mem_cons.1 hb with rfl | hb
    · have hle : (hook a).priority ≤ (hook b).priority := by simpa [← hP] using mem_takeWhile_imp ha
      have hmem := hold a (takeWhile_subset _ ha)
      rcases hle.lt_or_eq with hlt | heq
      · exact .inl hlt
      · exact .inr ⟨heq, by rw [hmem.1]; exact hmem.2⟩
    · exact hcross a ha b hb

theorem HooksOk.register (h : HooksOk hook s) (o : Option HookId) :
    HooksOk hook (s.nxHookRegister hook o).1 := by
  unfold nxHookRegister
  cases o with
  | none => exact h
  | some x =>
    dsimp only
    split_ifs with hfn hpoint hmem
    · exact h
    · exact h
    · exact h
    have hfree : ∀ p, x ∉ s.chain p := fun p hx => hmem ((h.mem p x hx).1 ▸ hx)
    have hne : ∀ p, ∀ y ∈ s.chain p, y ≠ x := fun p y hy heq => hfree p (heq ▸ hy)
    have hmem' : ∀ p y, y ∈ update s.chain (hook x).point
      (chainInsert hook (s.chain (hook x).point) x) p ↔
        p = (hook x).point ∧ y = x ∨ y ∈ s.chain p := fun p y => by
      by_cases hp : p = (hook x).point
      · subst hp
        simp [mem_chainInsert]
      · simp [hp]
    have hchain : ∀ p, update s.chain (hook x).point (chainInsert hook (s.chain (hook x).point) x) p =
        s.chain p ∨ update s.chain (hook x).point (chainInsert hook (s.chain (hook x).point) x) p =
          chainInsert hook (s.chain p) x := fun p => by
      by_cases hp : p = (hook x).point
      · subst hp
        exact .inr (update_self _ _ _)
      · exact .inl (update_of_ne hp _ _)
    have hsince : ∀ p, ∀ y ∈ s.chain p, update s.since x s.clock y = s.since y ∧
        s.since y < update s.since x s.clock x := fun p y hy => by
      rw [update_of_ne (hne p y hy), update_self]
      exact ⟨rfl, (h.mem p y hy).2.2⟩
    refine ⟨⟨fun p y hy => ?_, fun p => ?_, fun p => ?_⟩, h.counted, fun hstack p y hy => ?_⟩
    · dsimp only at hy ⊢
      rcases (hmem' p y).1 hy with ⟨rfl, rfl⟩ | hy
      · exact ⟨rfl, not_le.1 hpoint, by simp⟩
      · obtain ⟨hpt, hlt, hs⟩ := h.mem p y hy
        exact ⟨hpt, hlt, by rw [(hsince p y hy).1]; omega⟩
    · dsimp only
      rcases hchain p with hsame | hins
      · rw [hsame]
        exact h.nodup p
      · rw [hins]
        exact nodup_chainInsert (h.nodup p) (hfree p)
    · dsimp only
      rcases hchain p with hsame | hins
      · rw [hsame]
        refine (h.sorted p).imp_of_mem fun ha hb hab => ?_
        simp only [Before] at hab ⊢
        rwa [(hsince p _ ha).1, (hsince p _ hb).1]
      · rw [hins]
        exact sorted_chainInsert (h.sorted p) (hsince p)
    · dsimp only at hy ⊢
      rcases (hmem' p y).1 hy with ⟨-, rfl⟩ | hy
      · exact update_self _ _ _
      · rw [update_of_ne (hne p y hy)]
        exact h.swept hstack p y hy

/-! ### Unregistering -/

theorem HooksOk.unregister (h : HooksOk hook s) (o : Option HookId) :
    HooksOk hook (s.nxHookUnregister hook o) := by
  unfold nxHookUnregister
  cases o with
  | none => exact h
  | some x =>
    dsimp only
    split_ifs with hpoint hmem hdisp
    · exact h
    · -- The hook stays where it is, and is dead.
      refine ⟨{ h with }, h.counted, fun hstack => ?_⟩
      have hlen := h.counted
      rw [show s.stack = [] from hstack] at hlen
      exact absurd hlen hdisp.ne'
    · -- Nothing is being dispatched, and the hook is taken out.
      have hstack : s.stack = [] :=
        length_eq_zero_iff.1 (by rw [← h.counted]; exact Nat.eq_zero_of_not_pos hdisp)
      have hsub : ∀ p, (update s.chain (hook x).point ((s.chain (hook x).point).erase x) p).Sublist
          (s.chain p) :=
        fun p => by
          by_cases hp : p = (hook x).point
          · subst hp
            rw [update_self]
            exact erase_sublist
          · rw [update_of_ne hp]
      refine ⟨⟨fun p y hy => h.mem p y ((hsub p).subset hy), fun p => (h.nodup p).sublist (hsub p),
        fun p => (h.sorted p).sublist (hsub p)⟩, h.counted, fun _ p y hy => ?_⟩
      dsimp only [chainUnlink] at hy ⊢
      by_cases hyx : y = x
      · rw [hyx, update_self]
      · rw [update_of_ne hyx]
        exact h.swept hstack p y ((hsub p).subset hy)
    · exact h

/-! ### Dispatching -/

/-- The end of a dispatch. -/
theorem Chained.finish (h : Chained hook s) (hcount : s.dispatching = s.stack.length + 1) :
    HooksOk hook s.finish := by
  unfold HookState.finish
  dsimp only
  split_ifs with hlast
  · -- The outermost one: the dead hooks are swept out.
    have hstack : s.stack = [] := length_eq_zero_iff.1 (by omega)
    have hchain : ∀ p y, y ∈ (if p < nxHookPointCount then (s.chain p).filter fun h => !s.dead h
      else s.chain p) ↔
        y ∈ s.chain p ∧ s.dead y = false := fun p y => by
      split_ifs with hp
      · simp
      · exact ⟨fun hy => absurd (h.mem p y hy).2.1 hp, And.left⟩
    have hsub : ∀ p, (if p < nxHookPointCount then (s.chain p).filter fun h => !s.dead h
      else s.chain p).Sublist
        (s.chain p) := fun p => by
      split_ifs
      · exact filter_sublist
      · exact List.Sublist.refl _
    refine ⟨⟨fun p y hy => h.mem p y ((hsub p).subset hy), fun p => (h.nodup p).sublist (hsub p),
      fun p => (h.sorted p).sublist (hsub p)⟩, ?_, fun _ p y hy => ?_⟩
    · simp [sweepDead, hstack, hcount]
    · dsimp only [sweepDead] at hy ⊢
      simp [((hchain p y).1 hy).2]
  · refine ⟨{ h with }, ?_, fun hstack => ?_⟩
    · dsimp only
      omega
    · rw [hstack] at hcount
      simp [hcount] at hlast

/-- The chain from the remembered hook on is the second part. -/
theorem fromHook_eq {chain pre post : List HookId} (hnodup : chain.Nodup)
    (hsplit : chain = pre ++ post) : fromHook chain post.head? = post := by
  subst hsplit
  cases post with
  | nil => rfl
  | cons n post =>
    have hn : ∀ y ∈ pre, decide (y ≠ n) = true := fun y hy => by
      have hdisj := (nodup_append.1 hnodup).2.2 y hy n mem_cons_self
      simpa using hdisj
    rw [head?_cons, fromHook, dropWhile_append_of_pos hn, dropWhile_cons_of_neg (by simp)]

theorem Chained.walk (h : Chained hook s) (hcount : s.dispatching = s.stack.length + 1) (p : ℕ)
    (nxt : Option HookId) : HooksOk hook (s.walk p nxt) := by
  unfold HookState.walk
  split
  · exact h.finish hcount
  · exact ⟨{ h with }, by simpa using hcount, fun hstack => by cases hstack⟩

theorem HooksOk.dispatch (h : HooksOk hook s) (ctx : Option ℕ) :
    HooksOk hook (s.nxHookDispatch ctx) := by
  unfold nxHookDispatch
  cases ctx with
  | none => exact h
  | some p =>
    dsimp only
    split_ifs
    · exact h
    · exact Chained.walk (s := { s with dispatching := s.dispatching + 1 }) { h with }
        (by simpa using h.counted) p _

theorem HooksOk.callbackReturns (h : HooksOk hook s) (abort : Bool) :
    HooksOk hook (s.callbackReturns abort) := by
  unfold HookState.callbackReturns
  cases hstack : s.stack with
  | nil => exact h
  | cons f stack =>
    have hcount : s.dispatching = stack.length + 1 := by rw [h.counted, hstack, length_cons]
    have hchained : Chained hook { s with stack := stack } := { h with }
    dsimp only
    split_ifs
    · exact hchained.finish hcount
    · exact hchained.walk hcount _ _

theorem HooksOk.step (h : HooksOk hook s) (a : HookStep) : HooksOk hook (s.step hook a) := by
  cases a with
  | register o => exact h.register o
  | unregister o => exact h.unregister o
  | dispatch ctx => exact h.dispatch ctx
  | ret abort => exact h.callbackReturns abort

theorem hooksOk_init : HooksOk hook {} := by
  refine ⟨⟨?_, fun _ => nodup_nil, fun _ => List.Pairwise.nil⟩, rfl, ?_⟩ <;> simp

/-! ### What the onlooker sees -/

theorem finish_stack (s : HookState) : s.finish.stack = s.stack := by
  unfold finish
  dsimp only
  split_ifs <;> rfl

/-- Only the sweep after the outermost dispatch takes hooks out of the chains. -/
theorem finish_chain (s : HookState) (hs : s.dispatching = s.stack.length + 1) :
    s.stack = [] ∨ s.finish.chain = s.chain := by
  unfold finish
  dsimp only
  split_ifs
  · exact .inl (length_eq_zero_iff.1 (by omega))
  · exact .inr rfl

/-- The rest of a chain is called from its first hook on that is not dead. -/
theorem walk_cases (s : HookState) (p : ℕ) (nxt : Option HookId) :
    s.walk p nxt = s.finish ∧ (∀ y ∈ fromHook (s.chain p) nxt, s.dead y = true) ∨
      ∃ skip x rest, fromHook (s.chain p) nxt = skip ++ x :: rest ∧ (∀ y ∈ skip, s.dead y = true) ∧
      s.dead x = false ∧ s.walk p nxt = { s with stack := ⟨p, rest.head?, x⟩ :: s.stack } := by
  unfold walk
  cases hrest : (fromHook (s.chain p) nxt).dropWhile s.dead with
  | nil => exact .inl ⟨rfl, dropWhile_eq_nil_iff.1 hrest⟩
  | cons x rest =>
    have hhead := head?_dropWhile_not s.dead (fromHook (s.chain p) nxt)
    rw [hrest] at hhead
    refine .inr ⟨(fromHook (s.chain p) nxt).takeWhile s.dead, x, rest, ?_,
      fun y hy => mem_takeWhile_imp hy, by simpa using hhead, rfl⟩
    rw [← hrest, takeWhile_append_dropWhile]

/-- A hook may have been put into a chain. -/
def Grown (hook : HookId → HookInfo) (s s' : HookState) : Prop :=
  ∀ p, s'.chain p = s.chain p ∨ ∃ x ∉ s.chain p, s'.chain p = chainInsert hook (s.chain p) x

/-- What a step does: it leaves the stack, it starts a callback, or it ends a dispatch. -/
inductive StackMoves (hook : HookId → HookInfo) (s s' : HookState) : HookStep → Prop
  | same {a : HookStep} (hstack : s'.stack = s.stack) (hchain : s.stack = [] ∨ Grown hook s s')
      (hret : ∀ b, a = .ret b → s.stack = [])
      (hdead : ∀ p < nxHookPointCount, a = .dispatch (some p) → ∀ y ∈ s.chain p, s.dead y = true) :
      StackMoves hook s s' a
  | first {p : ℕ} {skip rest : List HookId} {x : HookId} (hp : p < nxHookPointCount)
      (hchain : s'.chain = s.chain) (hdead : s'.dead = s.dead)
      (hsplit : s.chain p = skip ++ x :: rest) (hskip : ∀ y ∈ skip, s.dead y = true)
      (hx : s.dead x = false) (hstack : s'.stack = ⟨p, rest.head?, x⟩ :: s.stack) :
      StackMoves hook s s' (.dispatch (some p))
  | next {f : HookFrame} {stack : List HookFrame} {skip rest : List HookId} {x : HookId}
      (hold : s.stack = f :: stack) (hchain : s'.chain = s.chain) (hdead : s'.dead = s.dead)
      (hsplit : fromHook (s.chain f.point) f.nxt = skip ++ x :: rest)
      (hskip : ∀ y ∈ skip, s.dead y = true) (hx : s.dead x = false)
      (hstack : s'.stack = ⟨f.point, rest.head?, x⟩ :: stack) : StackMoves hook s s' (.ret false)
  | last {b : Bool} {f : HookFrame} (hold : s.stack = f :: s'.stack)
      (hchain : s'.stack = [] ∨ s'.chain = s.chain) (hend : b = false →
        ∀ y ∈ fromHook (s.chain f.point) f.nxt, s.dead y = true) : StackMoves hook s s' (.ret b)

theorem stackMoves_step (h : HooksOk hook s) (a : HookStep) : StackMoves hook s (s.step hook a) a := by
  cases a with
  | register o =>
    change StackMoves hook s (s.nxHookRegister hook o).1 _
    have hsame : StackMoves hook s s (.register o) := .same rfl (.inr fun _ => .inl rfl) nofun nofun
    unfold nxHookRegister
    cases o with
    | none => exact hsame
    | some x =>
      dsimp only
      split_ifs with hfn hpoint hmem
      · exact hsame
      · exact hsame
      · exact hsame
      · refine .same rfl (.inr fun p => ?_) nofun nofun
        by_cases hp : p = (hook x).point
        · subst hp
          exact .inr ⟨x, hmem, update_self _ _ _⟩
        · exact .inl (update_of_ne hp _ _)
  | unregister o =>
    change StackMoves hook s (s.nxHookUnregister hook o) _
    have hsame : StackMoves hook s s (.unregister o) := .same rfl (.inr fun _ => .inl rfl) nofun nofun
    unfold nxHookUnregister
    cases o with
    | none => exact hsame
    | some x =>
      dsimp only
      split_ifs with hpoint hmem hdisp
      · exact hsame
      · exact .same rfl (.inr fun _ => .inl rfl) nofun nofun
      · refine .same rfl (.inl (length_eq_zero_iff.1 ?_)) nofun nofun
        rw [← h.counted]
        exact Nat.eq_zero_of_not_pos hdisp
      · exact hsame
  | dispatch ctx =>
    change StackMoves hook s (s.nxHookDispatch ctx) _
    unfold nxHookDispatch
    cases ctx with
    | none => exact .same rfl (.inr fun _ => .inl rfl) nofun nofun
    | some p =>
      dsimp only
      split_ifs with hp
      · refine .same rfl (.inr fun _ => .inl rfl) nofun fun q hq heq => ?_
        cases heq
        exact absurd hq (not_lt.2 hp)
      · have hfrom : fromHook (s.chain p) (s.chain p).head? = s.chain p :=
          fromHook_eq (h.nodup p) (nil_append _).symm
        have hwalk := walk_cases { s with dispatching := s.dispatching + 1 } p (s.chain p).head?
        dsimp only at hwalk
        rw [hfrom] at hwalk
        rcases hwalk with ⟨hwalk, hdead⟩ | ⟨skip, x, rest, hsplit, hskip, hx, hwalk⟩
        · rw [hwalk]
          refine .same (finish_stack _) ?_ nofun fun q hq heq => ?_
          · have hfinish := finish_chain { s with dispatching := s.dispatching + 1 }
              (congrArg (· + 1) h.counted)
            exact hfinish.imp_right fun hc p => .inl (congrFun hc p)
          · cases heq
            exact hdead
        · rw [hwalk]
          exact .first (not_le.1 hp) rfl rfl hsplit hskip hx rfl
  | ret b =>
    change StackMoves hook s (s.callbackReturns b) _
    unfold callbackReturns
    cases hstack : s.stack with
    | nil => exact .same rfl (.inl hstack) (fun _ _ => hstack) nofun
    | cons f stack =>
      have hcount : s.dispatching = stack.length + 1 := by rw [h.counted, hstack, length_cons]
      have hfinish := finish_chain { s with stack } hcount
      rw [← finish_stack] at hfinish
      dsimp only
      cases b with
      | true => exact .last (by rw [if_pos rfl, finish_stack, hstack]) hfinish nofun
      | false =>
        rw [if_neg Bool.false_ne_true]
        rcases walk_cases { s with stack } f.point f.nxt with ⟨hwalk, hdead⟩ | ⟨skip, x, rest,
          hsplit, hskip, hx, hwalk⟩
        · rw [hwalk]
          exact .last (by rw [finish_stack, hstack]) hfinish fun _ => hdead
        · rw [hwalk]
          exact .next hstack rfl rfl hsplit hskip hx rfl

end HookState

namespace HookWatch

open HookState

variable {hook : HookId → HookInfo} {o : HookWatch} {s s' : HookState} {w : Watched} {f : HookFrame}

/-- What the onlooker knows about a dispatch is so. Its chain falls into two parts: what was called
is in the first, and of the hooks that have stayed there all were called; the second begins with the
hook to be called next. -/
structure Sees (s : HookState) (w : Watched) (f : HookFrame) : Prop where
  point : w.point = f.point
  cur : w.called.getLast? = some f.cur
  parts : ∃ pre post, s.chain f.point = pre ++ post ∧ post.head? = f.nxt ∧ w.called.Sublist pre ∧
    ∀ y ∈ w.stayed, y ∈ s.chain f.point ∧ s.dead y = false ∧ (y ∈ pre → y ∈ w.called)

/-- The onlooker knows all dispatches, and has nothing to object to. -/
structure WatchOk (hook : HookId → HookInfo) (o : HookWatch) : Prop where
  hooks : HooksOk hook o.hooks
  sees : Forall₂ (Sees o.hooks) o.open_ o.hooks.stack
  returned : ∀ d ∈ o.returned, d.1.Ok d.2.1 d.2.2
  strays : o.strays = []

/-- A dispatch that does not move is still known. -/
theorem Sees.stayed (h : HooksOk hook s) (hw : Sees s w f) (hchain : Grown hook s s') :
    Sees s' (stay hook s' w) f := by
  obtain ⟨hpoint, hcur, pre, post, hsplit, hnext, hcalled, hstayed⟩ := hw
  have hlive : ∀ y ∈ (stay hook s' w).stayed, y ∈ s.chain f.point ∧ y ∈ s'.chain f.point ∧
    s'.dead y = false ∧
      (y ∈ pre → y ∈ w.called) := fun y hy => by
    obtain ⟨hy, hl⟩ := mem_filter.1 hy
    obtain ⟨hmem, -, hpre⟩ := hstayed y hy
    exact ⟨hmem, (h.mem _ y hmem).1 ▸ (of_decide_eq_true hl).1, (of_decide_eq_true hl).2, hpre⟩
  refine ⟨hpoint, hcur, ?_⟩
  rcases hchain f.point with hsame | ⟨x, hx, hins⟩
  · exact ⟨pre, post, hsame.trans hsplit, hnext, hcalled, fun y hy => (hlive y hy).2⟩
  · have hparts : pre ++ post = s.chain f.point := hsplit.symm
    rw [← takeWhile_append_dropWhile
      (p := fun n => decide ((hook n).priority ≤ (hook x).priority)) (l := s.chain f.point)] at hparts
    obtain ⟨pre', post', hsplit', hnext', hsub, hpre⟩ := split_insert hparts x
    refine ⟨pre', post', hins.trans hsplit', hnext'.trans hnext, hcalled.trans hsub, fun y hy => ?_⟩
    obtain ⟨hmem, hmem', hdead, hall⟩ := hlive y hy
    exact ⟨hmem', hdead, fun hy' => hall ((hpre y hy').resolve_left fun heq => hx (heq ▸ hmem))⟩

/-- A callback is started: the hooks before it in the rest of the chain are dead. -/
theorem Sees.started {called stayed pre skip rest : List HookId} {p : ℕ} {x : HookId}
    (hsplit : s.chain p = pre ++ (skip ++ x :: rest)) (hskip : ∀ y ∈ skip, s.dead y = true)
    (hcalled : called.Sublist pre)
    (hstayed : ∀ y ∈ stayed, y ∈ s.chain p ∧ s.dead y = false ∧ (y ∈ pre → y ∈ called)) :
    Sees s ⟨p, called ++ [x], stayed⟩ ⟨p, rest.head?, x⟩ := by
  refine ⟨rfl, by simp, pre ++ skip ++ [x], rest, by simp [hsplit], rfl,
    (hcalled.trans (sublist_append_left _ _)).append (List.Sublist.refl _), fun y hy => ?_⟩
  obtain ⟨hmem, hdead, hall⟩ := hstayed y hy
  refine ⟨hmem, hdead, fun hy' => ?_⟩
  simp only [mem_append, mem_singleton] at hy' ⊢
  rcases hy' with (hy' | hy') | rfl
  · exact .inl (hall hy')
  · exact absurd (hskip y hy') (Bool.eq_false_iff.1 hdead)
  · exact .inr rfl

/-- A dispatch whose last callback has returned. -/
theorem Sees.ok (h : HooksOk hook s) (hw : Sees s w f) {b : Bool}
    (hend : b = false → ∀ y ∈ fromHook (s.chain f.point) f.nxt, s.dead y = true) :
    w.Ok (s.chain w.point) b := by
  obtain ⟨hpoint, hcur, pre, post, hsplit, hnext, hcalled, hstayed⟩ := hw
  rw [← hnext, fromHook_eq (h.nodup _) hsplit] at hend
  rw [hpoint]
  refine ⟨h.nodup _, hsplit ▸ hcalled.trans (sublist_append_left _ _), fun y hy => ?_⟩
  obtain ⟨hmem, hdead, hall⟩ := hstayed y hy
  rw [hsplit, mem_append] at hmem
  rcases hmem with hpre | hpost
  · exact .inl (hall hpre)
  · refine .inr ⟨?_, f.cur, hcur, ?_⟩
    · -- without an abort only dead hooks are left
      by_contra hb
      exact absurd (hend (Bool.eq_false_iff.2 hb) y hpost) (Bool.eq_false_iff.1 hdead)
    · rw [hsplit]
      exact (singleton_sublist.2 (hcalled.subset (mem_of_getLast? hcur))).append
        (singleton_sublist.2 hpost)

theorem WatchOk.step (h : WatchOk hook o) (a : HookStep) : WatchOk hook (o.step hook a) := by
  have hok := h.hooks.step a
  have hmoves := stackMoves_step h.hooks a
  have hsees := h.sees
  unfold HookWatch.step
  generalize o.hooks.step hook a = s' at hok hmoves
  have hstay : ∀ {open_ : List Watched} {stack : List HookFrame}, Forall₂ (Sees o.hooks) open_ stack →
      stack = [] ∨ Grown hook o.hooks s' → Forall₂ (Sees s') (open_.map (stay hook s'))
        stack := fun hall hchain => by
    rcases hchain with rfl | hchain
    · cases hall
      exact .nil
    · exact forall₂_map_left_iff.2 (hall.imp fun _ _ hw => hw.stayed h.hooks hchain)
  have hlive : ∀ {p : ℕ} {y : HookId}, y ∈ o.hooks.chain p → s'.chain = o.hooks.chain →
      s'.dead y = false → s'.Live hook y :=
    fun hmem hchain hdead => ⟨hchain ▸ (h.hooks.mem _ _ hmem).1.symm ▸ hmem, hdead⟩
  cases hmoves with
  | same hstack hchain hret hdead =>
    have hmap : Forall₂ (Sees s') (o.open_.map (stay hook s')) s'.stack := hstack.symm ▸ hstay
      hsees hchain
    have hquiet : WatchOk hook { o with hooks := s', open_ := o.open_.map (stay hook s') } :=
      ⟨hok, hmap, h.returned, h.strays⟩
    cases a with
    | register x => exact hquiet
    | unregister x => exact hquiet
    | ret b =>
      rw [hret b rfl, forall₂_nil_right_iff] at hsees
      rw [hsees] at hquiet ⊢
      exact hquiet
    | dispatch ctx =>
      cases ctx with
      | none => exact hquiet
      | some p =>
        by_cases hp : nxHookPointCount ≤ p
        · simpa only [if_pos hp] using hquiet
        · have hlen : ¬ o.hooks.stack.length < s'.stack.length := by simp [hstack]
          simp only [if_neg hp, follow, decide_eq_false hlen, Bool.false_eq_true, if_false]
          refine ⟨hok, hmap, ?_, h.strays⟩
          simp only [forall_mem_append, forall_mem_singleton]
          refine ⟨h.returned, h.hooks.nodup p, nil_sublist _, fun y hy => ?_⟩
          -- all hooks of the chain are dead, so none of them has stayed
          obtain ⟨hy, hylive⟩ := mem_filter.1 (mem_of_mem_filter hy)
          exact absurd (hdead p (not_le.1 hp) rfl y hy)
            (Bool.eq_false_iff.1 (of_decide_eq_true hylive).2)
  | @first p skip rest x hp hchain hdead hsplit hskip hx hstack =>
    have hlen : o.hooks.stack.length < s'.stack.length := by simp [hstack]
    have hrun : s'.running = some x := by simp [running, hstack]
    have hxlive : s'.Live hook x := hlive (p := p) (by simp [hsplit]) hchain (hdead ▸ hx)
    simp only [if_neg (not_le.2 hp), follow, decide_eq_true hlen, if_true, hrun, Option.toList_some]
    refine ⟨hok, hstack ▸ .cons ?_ (hstay hsees (.inr fun p => .inl (congrFun hchain p))), h.returned,
      by simp [h.strays, hxlive]⟩
    have hsplit' : s'.chain p = [] ++ (skip ++ x :: rest) := hchain ▸ hsplit
    refine Sees.started hsplit' (hdead ▸ hskip) (List.Sublist.refl _) fun y hy => ?_
    obtain ⟨hy, hylive⟩ := mem_filter.1 hy
    have hmem : y ∈ o.hooks.chain p := mem_of_mem_filter hy
    exact ⟨hchain.symm ▸ hmem, (of_decide_eq_true hylive).2, by simp⟩
  | @next f stack skip rest x hold hchain hdead hsplit hskip hx hstack =>
    obtain ⟨w, outer, hw, houter, hopen⟩ := forall₂_cons_right_iff.1 (hold ▸ hsees)
    have hgrown : Grown hook o.hooks s' := fun p => .inl (congrFun hchain p)
    have hlen : o.hooks.stack.length ≤ s'.stack.length := by simp [hstack, hold]
    have hrun : s'.running = some x := by simp [running, hstack]
    obtain ⟨hpoint, -, pre, post, hparts, hnext, hcalled, hstayed⟩ := hw.stayed h.hooks hgrown
    rw [← hnext, ← hchain, fromHook_eq (hok.nodup _) hparts] at hsplit
    have hxlive : s'.Live hook x :=
      hlive (p := f.point) (hchain ▸ by simp [hparts, hsplit]) hchain (hdead ▸ hx)
    simp only [hopen, map_cons, follow, decide_eq_true hlen, if_true, hrun, Option.toList_some]
    refine ⟨hok, hstack ▸ .cons ?_ (hstay houter (.inr hgrown)), h.returned, by simp [h.strays, hxlive]⟩
    rw [show (stay hook s' w).point = f.point from hpoint]
    exact Sees.started (hsplit ▸ hparts) (hdead ▸ hskip) hcalled hstayed
  | @last b f hold hchain hend =>
    obtain ⟨w, outer, hw, houter, hopen⟩ := forall₂_cons_right_iff.1 (hold ▸ hsees)
    have hlen : ¬ o.hooks.stack.length ≤ s'.stack.length := by simp [hold]
    simp only [hopen, map_cons, follow, decide_eq_false hlen, Bool.false_eq_true, if_false]
    refine ⟨hok, hstay houter (hchain.imp_right fun hc p => .inl (congrFun hc p)), ?_, h.strays⟩
    simp only [forall_mem_append, forall_mem_singleton]
    obtain ⟨hnodup, horder, hcomplete⟩ := hw.ok h.hooks hend
    exact ⟨h.returned, hnodup, horder, fun y hy => hcomplete y (mem_of_mem_filter hy)⟩

/-- The onlooker does not touch the hooks. -/
theorem step_hooks (a : HookStep) : (o.step hook a).hooks = o.hooks.step hook a := by
  simp only [HookWatch.step, follow]
  split
  · split
    · rfl
    · split <;> rfl
  · split <;> rfl
  · rfl

end HookWatch

end Nonux.Framework
