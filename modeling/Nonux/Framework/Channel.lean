import Nonux.Framework.Abi
import Nonux.Lib.Count
import Nonux.Lib.Heap

/-!
# Channel endpoints (`framework/channel.c`)

A channel is one allocation with two endpoints. Each endpoint counts the handles
that name it; the last close of an endpoint marks it closed, and the last close of
a channel whose other endpoint has none left frees the allocation. `retain` and
`close` trust their caller: nothing stops a `retain` of a closed endpoint or a
`close` of one with no handles.

`Matches cs c` says that the channels `cs` are as they should be when the endpoints
have the numbers `c` of references: each count is right, an endpoint is closed
exactly when it has none, and a channel was freed once if both its endpoints have
none, and otherwise never. Creating, retaining and closing keep it, with `c` moving by
one reference, as long as a reference is held where they assume one.

The message rings and the lists of poll listeners are left out here: no count
depends on them.
-/

namespace Nonux.Framework

open Nonux.Lib

/-- `struct nx_channel_endpoint`, what its lifetime depends on. -/
structure ChannelEndpoint where
  closed : Bool := false
  handleRefs : ℤ := 1
  deriving DecidableEq, Repr

/-- `struct nx_channel`: the two endpoints. -/
structure Channel where
  e : Fin 2 → ChannelEndpoint := fun _ => {}

/-- Every channel ever created. -/
abbrev Channels := Heap Channel

/-- An endpoint: the channel, and its side. -/
abbrev EndpointRef := ℕ × Fin 2

/-- For sides written as numerals. -/
instance instNeZeroSides : NeZero 2 := ⟨by decide⟩

/-- Store to one endpoint. -/
def Channel.set (ch : Channel) (s : Fin 2) (e : ChannelEndpoint) : Channel := ⟨Function.update ch.e s e⟩

/-- `nx_channel_create`; `calloc` says whether the allocation succeeds. The endpoints
are the two sides of the channel returned. -/
def nxChannelCreate (cs : Channels) (calloc : Bool) : Except Err (Channels × ℕ) :=
  if calloc then .ok (cs.alloc {}, cs.next) else .error .enomem

/-- `nx_channel_endpoint_retain`. -/
def nxChannelEndpointRetain (cs : Channels) (r : EndpointRef) : Channels :=
  cs.modify r.1 fun ch => ch.set r.2 { ch.e r.2 with handleRefs := (ch.e r.2).handleRefs + 1 }

/-- `nx_channel_endpoint_close`. -/
def nxChannelEndpointClose (cs : Channels) (r : EndpointRef) : Channels :=
  match cs.get? r.1 with
  | none => cs
  | some cell =>
    let e := cell.val.e r.2
    -- `atomic_fetch_sub`: the test is on the value before.
    let dropped := { e with handleRefs := e.handleRefs - 1 }
    if e.handleRefs ≠ 1 then cs.modify r.1 (·.set r.2 dropped)
    else
      let cs := cs.modify r.1 (·.set r.2 { dropped with closed := true })
      if (cell.val.e (1 - r.2)).handleRefs = 0 then cs.free r.1 else cs

/-! ### Counts that are right -/

/-- An endpoint with `n` references. -/
def ChannelEndpoint.Holds (e : ChannelEndpoint) (n : ℕ) : Prop :=
  e.handleRefs = n ∧ (e.closed = true ↔ n = 0)

/-- A channel whose endpoints have `n₀` and `n₁` references. -/
def ChannelHolds (cell : HeapCell Channel) (n : Fin 2 → ℕ) : Prop :=
  (∀ s, (cell.val.e s).Holds (n s)) ∧ cell.frees = if n 0 = 0 ∧ n 1 = 0 then 1 else 0

/-- The same, read from one of the two sides. -/
theorem channelHolds_iff (s : Fin 2) {cell : HeapCell Channel} {n : Fin 2 → ℕ} :
    ChannelHolds cell n ↔ (cell.val.e s).Holds (n s) ∧ (cell.val.e (1 - s)).Holds (n (1 - s)) ∧
      cell.frees = if n s = 0 ∧ n (1 - s) = 0 then 1 else 0 := by
  unfold ChannelHolds
  rw [Fin.forall_fin_two]
  fin_cases s
  · simp [and_assoc]
  · simp only [Fin.mk_one, Fin.isValue, sub_self, and_comm (a := n 1 = 0)]
    tauto

/-- The channels are as they should be when each endpoint has the number `c` says of
references. -/
structure Matches (cs : Channels) (c : EndpointRef → ℕ) : Prop where
  holds : ∀ i cell, cs.get? i = some cell → ChannelHolds cell fun s => c (i, s)
  /-- Nothing refers to a channel that does not exist. -/
  exist : ∀ i s, 0 < c (i, s) → ∃ cell, cs.get? i = some cell

theorem matches_empty : Matches {} 0 where
  holds := fun i cell h => by simp [Heap.get?] at h
  exist := fun i s h => by simp at h

variable {cs : Channels} {c : EndpointRef → ℕ}

/-- A new channel has one reference to each endpoint. -/
theorem Matches.create (h : Matches cs c) :
    Matches (cs.alloc {}) (c + oneRef (some (cs.next, 0)) + oneRef (some (cs.next, 1))) := by
  have hfresh : ∀ s, c (cs.next, s) = 0 := fun s => by
    by_contra hne
    obtain ⟨cell, hcell⟩ := h.exist cs.next s (Nat.pos_of_ne_zero hne)
    rw [Heap.get?_eq_none_of_next_le le_rfl] at hcell
    exact absurd hcell (by simp)
  constructor
  · intro i cell hi
    rw [Heap.get?_alloc] at hi
    split_ifs at hi with hnew
    · subst hnew
      cases hi
      refine ⟨fun s => ?_, ?_⟩
      · fin_cases s <;> simp [ChannelEndpoint.Holds, hfresh, oneRef]
      · simp [hfresh, oneRef]
    · have hne : cs.next ≠ i := fun h => hnew h.symm
      have := h.holds i cell hi
      simpa [oneRef, hne] using this
  · intro i s hpos
    by_cases hnew : i = cs.next
    · exact ⟨_, by rw [Heap.get?_alloc, if_pos hnew]⟩
    · have hne : cs.next ≠ i := fun h => hnew h.symm
      rw [Heap.get?_alloc, if_neg hnew]
      exact h.exist i s (by simpa [oneRef, hne] using hpos)

/-- A change to one channel: the others, and the references to them, stay. -/
theorem Matches.of_cell {cs' : Channels} {c' : EndpointRef → ℕ} {i : ℕ} {cell : HeapCell Channel}
    (h : Matches cs c) (hother : ∀ j, j ≠ i → cs'.get? j = cs.get? j)
    (hcount : ∀ j s, j ≠ i → c' (j, s) = c (j, s)) (hcell : cs'.get? i = some cell)
    (hholds : ChannelHolds cell fun s => c' (i, s)) : Matches cs' c' := by
  constructor
  · intro j cell' hj
    by_cases hji : j = i
    · subst hji
      rw [hcell, Option.some.injEq] at hj
      exact hj ▸ hholds
    · rw [hother j hji] at hj
      simpa only [hcount j _ hji] using h.holds j cell' hj
  · intro j s hpos
    by_cases hji : j = i
    · exact ⟨cell, hji ▸ hcell⟩
    · rw [hcount j s hji] at hpos
      rw [hother j hji]
      exact h.exist j s hpos

theorem oneRef_peer (i : ℕ) (s : Fin 2) : oneRef (some (i, s)) (i, 1 - s) = 0 :=
  oneRef_some_of_ne (by fin_cases s <;> simp)

theorem Channel.set_self (ch : Channel) (s : Fin 2) (e : ChannelEndpoint) : (ch.set s e).e s = e := by
  simp [Channel.set]

theorem Channel.set_peer (ch : Channel) (s : Fin 2) (e : ChannelEndpoint) :
    (ch.set s e).e (1 - s) = ch.e (1 - s) := by
  fin_cases s <;> simp [Channel.set]

/-- A store to one endpoint, after which the channel has been freed `frees` times. -/
theorem Matches.put {cs' : Channels} {c' : EndpointRef → ℕ} {i : ℕ} {s : Fin 2} {ch : Channel}
    {e : ChannelEndpoint} {frees : ℕ} (h : Matches cs c)
    (hother : ∀ j, j ≠ i → cs'.get? j = cs.get? j) (hcount : ∀ j s', j ≠ i → c' (j, s') = c (j, s'))
    (hput : cs'.get? i = some ⟨ch.set s e, frees⟩) (he : e.Holds (c' (i, s)))
    (hpeer : (ch.e (1 - s)).Holds (c' (i, 1 - s)))
    (hfrees : frees = if c' (i, s) = 0 ∧ c' (i, 1 - s) = 0 then 1 else 0) : Matches cs' c' := by
  refine h.of_cell hother hcount hput ((channelHolds_iff s).mpr ?_)
  rw [Channel.set_self, Channel.set_peer]
  exact ⟨he, hpeer, hfrees⟩

/-- `retain` adds a reference to an endpoint that has one. -/
theorem Matches.retain {r : EndpointRef} (h : Matches cs c) (hr : 0 < c r) :
    Matches (nxChannelEndpointRetain cs r) (c + oneRef (some r)) := by
  obtain ⟨i, s⟩ := r
  obtain ⟨cell, hcell⟩ := h.exist i s hr
  obtain ⟨⟨hrefs, hclosed⟩, hpeer, hfrees⟩ := (channelHolds_iff s).mp (h.holds i cell hcell)
  refine h.put (i := i) (s := s) (fun j hj => ?_) (fun j s' hj => by simp [oneRef, hj.symm])
    (by rw [nxChannelEndpointRetain, Heap.get?_modify, if_pos rfl, hcell]; rfl) ?_ ?_ ?_
  · rw [nxChannelEndpointRetain, Heap.get?_modify, if_neg hj]
  · rw [Pi.add_apply, oneRef_some_self]
    refine ⟨by rw [hrefs]; push_cast; rfl, ?_⟩
    rw [hclosed]; omega
  · rwa [Pi.add_apply, oneRef_peer, Nat.add_zero]
  · -- The endpoint had a reference, so the channel was not freed and is not now.
    rw [hfrees, Pi.add_apply, oneRef_some_self, if_neg (by omega), if_neg (by omega)]

/-- `close` drops a reference that is held. -/
theorem Matches.close {r : EndpointRef} (h : Matches cs (c + oneRef (some r))) :
    Matches (nxChannelEndpointClose cs r) c := by
  obtain ⟨i, s⟩ := r
  obtain ⟨cell, hcell⟩ := h.exist i s (by simp)
  have hholds := (channelHolds_iff s).mp (h.holds i cell hcell)
  simp only [Pi.add_apply, oneRef_some_self, oneRef_peer, Nat.add_zero] at hholds
  obtain ⟨⟨hrefs, hclosed⟩, hpeer, hfrees⟩ := hholds
  have hprefs := hpeer.1
  rw [if_neg (by omega)] at hfrees
  have hcount : ∀ j s', j ≠ i → c (j, s') = (c + oneRef (some (i, s))) (j, s') := fun j s' hj => by
    simp [oneRef, hj.symm]
  simp only [nxChannelEndpointClose, hcell]
  split_ifs with hlast hboth
  · -- Other handles remain on this endpoint.
    refine h.put (s := s) (fun j hj => by rw [Heap.get?_modify, if_neg hj]) hcount
      (by rw [Heap.get?_modify, if_pos rfl, hcell]; rfl) ⟨by dsimp only; omega, ?_⟩ hpeer ?_
    · rw [hclosed]; omega
    · rw [hfrees, if_neg (by omega)]
  · -- The last handle of the channel: it is freed, for the first time.
    refine h.put (s := s)
      (fun j hj => by rw [Heap.get?_free, if_neg hj, Heap.get?_modify, if_neg hj]) hcount
      (by rw [Heap.get?_free, if_pos rfl, Heap.get?_modify, if_pos rfl, hcell]; rfl)
        ⟨by dsimp only; omega, ?_⟩ hpeer ?_
    · simp only [true_iff]; omega
    · rw [hfrees, if_pos (by omega)]
  · -- The last handle of this endpoint, with the peer still open.
    refine h.put (s := s) (fun j hj => by rw [Heap.get?_modify, if_neg hj]) hcount
      (by rw [Heap.get?_modify, if_pos rfl, hcell]; rfl) ⟨by dsimp only; omega, ?_⟩ hpeer ?_
    · simp only [true_iff]; omega
    · rw [hfrees, if_neg (by omega)]

end Nonux.Framework
