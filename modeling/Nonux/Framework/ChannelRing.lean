import Nonux.Framework.Channel
import Nonux.Lib.Loop
import Nonux.Lib.Ring

/-!
# The messages of a channel (`framework/channel.c`)

Each endpoint has a ring of eight messages that the other one has sent. The owner of the endpoint
moves the head and the sender the tail; one place stays free, so that a ring with the head at the
tail is empty.

`messages` are the messages in a ring, oldest first. `nxChannelSend_spec` and `nxChannelRecv_spec`
say what sending and receiving do to them, and `channel_refines_fifo` that a channel with both ends
open is two queues of seven messages each, over any sequence of operations.
-/

namespace Nonux.Framework

open Nonux.Lib Function

/-! ### The model -/

/-- `NX_CHANNEL_MSG_MAX` -/
def nxChannelMsgMax : ℕ := 256

/-- `NX_CHANNEL_RING_LEN` -/
def nxChannelRingLen : ℕ := 8

/-- `NX_POLLIN` -/
def nxPollin : UInt16 := 0x001

/-- `NX_POLLOUT` -/
def nxPollout : UInt16 := 0x004

/-- `NX_POLLHUP` -/
def nxPollhup : UInt16 := 0x010

/-- `NX_POLLNVAL` -/
def nxPollnval : UInt16 := 0x020

theorem nxChannelRingLen_pos : 0 < nxChannelRingLen := by decide

/-- `struct nx_channel_endpoint`, with its ring. A `struct channel_msg` is the bytes that count. -/
structure RingEndpoint extends ChannelEndpoint where
  head : ℕ := 0
  tail : ℕ := 0
  ring : ℕ → List UInt8 := fun _ => []
  head_lt : head < nxChannelRingLen := by exact nxChannelRingLen_pos
  tail_lt : tail < nxChannelRingLen := by exact nxChannelRingLen_pos

/-- The place after a place of the ring. -/
theorem next_lt (k : ℕ) :
    (k + 1) % nxChannelRingLen < nxChannelRingLen := Nat.mod_lt _ nxChannelRingLen_pos

/-- `nx_channel_endpoint_depth` -/
def nxChannelEndpointDepth (e : RingEndpoint) : ℕ :=
  if e.tail ≥ e.head then e.tail - e.head else e.tail + nxChannelRingLen - e.head

/-- `struct nx_channel`, with the rings. The default is what `nx_channel_create` returns. -/
structure RingChannel where
  e : Fin 2 → RingEndpoint := fun _ => {}

namespace RingChannel

/-- Store to one endpoint. -/
def set (ch : RingChannel) (s : Fin 2) (e : RingEndpoint) : RingChannel := ⟨update ch.e s e⟩

/-- `peer_of` -/
def peerOf (ch : RingChannel) (s : Fin 2) : RingEndpoint := ch.e (1 - s)

/-- `nx_channel_send`, but for the listeners that it wakes. The endpoint and the data may be null;
the length is that of the data. -/
def nxChannelSend (ch : RingChannel) (s : Option (Fin 2)) (data : Option (List UInt8)) :
    RingChannel × Except Err ℕ :=
  match s, data with
  | some s, some data =>
    if data.length > nxChannelMsgMax then (ch, .error .einval)
    else if (ch.e s).closed then (ch, .error .ebusy)
    else
      let p := ch.peerOf s
      if p.closed then (ch, .error .ebusy)
      else
        let next := (p.tail + 1) % nxChannelRingLen
        if next = p.head then (ch, .error .ebusy)
        else
          (ch.set (1 - s) { p with ring := update p.ring p.tail data, tail := next, tail_lt := next_lt _ },
            .ok data.length)
  | _, _ => (ch, .error .einval)

/-- `nx_channel_recv`. What it returns is the length of what it has put into the buffer, of the
given capacity, which may be null. -/
def nxChannelRecv (ch : RingChannel) (s : Option (Fin 2)) (buf : Option ℕ) :
    RingChannel × Except Err (List UInt8) :=
  match s, buf with
  | some s, some cap =>
    let e := ch.e s
    if cap = 0 then (ch, .error .einval)
    else if e.closed then (ch, .error .ebusy)
    else if e.head = e.tail then
      -- The end of the stream, if nobody can send any more.
      if (ch.peerOf s).closed then (ch, .ok []) else (ch, .error .eagain)
    else
      let m := e.ring e.head
      if m.length > cap then (ch, .error .enomem)
      else (ch.set s { e with head := (e.head + 1) % nxChannelRingLen, head_lt := next_lt _ }, .ok m)
  | _, _ => (ch, .error .einval)

/-- `nx_channel_endpoint_retain` -/
def nxChannelEndpointRetain (ch : RingChannel) (s : Fin 2) : RingChannel :=
  ch.set s { ch.e s with handleRefs := (ch.e s).handleRefs + 1 }

/-- `nx_channel_endpoint_close`, but for the listeners that it wakes and for the end of the channel,
when the other endpoint has no handles either. -/
def nxChannelEndpointClose (ch : RingChannel) (s : Fin 2) : RingChannel :=
  let e := ch.e s
  ch.set s { e with
    handleRefs := e.handleRefs - 1, closed := if e.handleRefs ≠ 1 then e.closed else true }

/-- `nx_channel_endpoint_readiness` -/
def nxChannelEndpointReadiness (ch : RingChannel) (s : Option (Fin 2)) (want : UInt16) : UInt16 :=
  match s with
  | none => nxPollnval
  | some s =>
    let e := ch.e s
    let p := ch.peerOf s
    (if want &&& nxPollin ≠ 0 ∧ (e.head ≠ e.tail ∨ p.closed) then nxPollin else 0) |||
      (if want &&& nxPollout ≠ 0 ∧ e.closed = false ∧ p.closed = false ∧ (p.tail + 1) %
        nxChannelRingLen ≠ p.head then nxPollout else 0) |||
      if p.closed then nxPollhup else 0

end RingChannel

/-! ### The messages in a ring -/

namespace RingEndpoint

variable {e : RingEndpoint}

/-- The messages in the ring of an endpoint, oldest first. -/
def messages (e : RingEndpoint) : List (List UInt8) :=
  Ring.window e.ring nxChannelRingLen e.head (nxChannelEndpointDepth e)

/-- The tail is as far from the head as there are messages. -/
theorem tail_eq : e.tail = (e.head + nxChannelEndpointDepth e) % nxChannelRingLen := by
  have hhead := e.head_lt
  have htail := e.tail_lt
  unfold nxChannelEndpointDepth nxChannelRingLen at *
  split_ifs <;> omega

theorem depth_lt : nxChannelEndpointDepth e < nxChannelRingLen := by
  have hhead := e.head_lt
  have htail := e.tail_lt
  unfold nxChannelEndpointDepth nxChannelRingLen at *
  split_ifs <;> omega

theorem depth_eq_of_tail {d : ℕ} (hd : d < nxChannelRingLen)
    (htail : e.tail = (e.head + d) % nxChannelRingLen) : nxChannelEndpointDepth e = d := by
  have hhead := e.head_lt
  unfold nxChannelEndpointDepth nxChannelRingLen at *
  split_ifs <;> omega

@[simp] theorem length_messages : e.messages.length = nxChannelEndpointDepth e := Ring.length_window

/-- The ring is empty when the head is at the tail. -/
theorem messages_eq_nil : e.messages = [] ↔ e.head = e.tail := by
  rw [← List.length_eq_zero_iff, length_messages]
  have hhead := e.head_lt
  have htail := e.tail_lt
  unfold nxChannelEndpointDepth nxChannelRingLen at *
  split_ifs <;> omega

/-- The ring is full when the place after the tail is the head: there are seven messages. -/
theorem full_iff : (e.tail + 1) % nxChannelRingLen = e.head ↔ ¬ e.messages.length < 7 := by
  rw [length_messages]
  have hhead := e.head_lt
  have htail := e.tail_lt
  unfold nxChannelEndpointDepth nxChannelRingLen at *
  split_ifs <;> omega

/-- Sending appends the message. -/
theorem messages_push (hroom : e.messages.length < 7) (data : List UInt8) :
    messages { e with
      ring := update e.ring e.tail data, tail := (e.tail + 1) % nxChannelRingLen,
      tail_lt := next_lt _ } =
        e.messages ++ [data] := by
  rw [length_messages] at hroom
  have hdepth : nxChannelEndpointDepth { e with
      ring := update e.ring e.tail data, tail := (e.tail + 1) % nxChannelRingLen, tail_lt := next_lt
        _ } = nxChannelEndpointDepth e + 1 :=
    depth_eq_of_tail (Nat.succ_lt_succ hroom)
      (by dsimp only; rw [tail_eq, Nat.mod_add_mod, Nat.add_assoc])
  unfold messages
  rw [hdepth]
  dsimp only
  rw [tail_eq]
  exact Ring.window_write depth_lt data

/-- Receiving takes the oldest message off. -/
theorem messages_pop (hne : e.head ≠ e.tail) :
    e.messages = e.ring e.head ::
      messages { e with head := (e.head + 1) % nxChannelRingLen, head_lt := next_lt _ } := by
  have hpos : nxChannelEndpointDepth e ≠ 0 := by
    rw [← length_messages, Ne, List.length_eq_zero_iff, messages_eq_nil]
    exact hne
  obtain ⟨d, hd⟩ := Nat.exists_eq_succ_of_ne_zero hpos
  have hdepth : nxChannelEndpointDepth
      { e with head := (e.head + 1) % nxChannelRingLen, head_lt := next_lt _ } = d := by
    have hlt := @depth_lt e
    refine depth_eq_of_tail (by omega) ?_
    dsimp only
    rw [tail_eq, hd, Nat.mod_add_mod, Nat.succ_eq_add_one, Nat.add_assoc, Nat.add_comm d]
  unfold messages
  rw [hdepth, hd, Nat.succ_eq_add_one, Ring.window_succ, Nat.mod_eq_of_lt e.head_lt]
  dsimp only
  rw [Ring.window_mod]

end RingEndpoint

/-! ### Sending and receiving, as queues -/

/-- Two queues of messages, one for each end, with room for seven messages each. -/
abbrev Inboxes := Fin 2 → List (List UInt8)

namespace Inboxes

variable (q : Inboxes) (s : Fin 2)

/-- Sending from an end: the message goes to the queue of the other, if it has room. -/
def send (data : List UInt8) : Inboxes × Except Err ℕ :=
  if data.length > nxChannelMsgMax then (q, .error .einval)
  else if (q (1 - s)).length < 7 then (update q (1 - s) (q (1 - s) ++ [data]), .ok data.length)
  else (q, .error .ebusy)

/-- Receiving at an end: the oldest message, if there is one and it fits. -/
def recv (cap : ℕ) : Inboxes × Except Err (List UInt8) :=
  if cap = 0 then (q, .error .einval)
  else
    match q s with
    | [] => (q, .error .eagain)
    | m :: rest => if m.length > cap then (q, .error .enomem) else (update q s rest, .ok m)

/-- What an end is ready for. -/
def readiness (want : UInt16) : UInt16 :=
  (if want &&& nxPollin ≠ 0 ∧ q s ≠ [] then nxPollin else 0) |||
    if want &&& nxPollout ≠ 0 ∧ (q (1 - s)).length < 7 then nxPollout else 0

end Inboxes

namespace RingChannel

variable {ch : RingChannel} {s : Fin 2}

variable (e : RingEndpoint)

@[simp] theorem set_self : (ch.set s e).e s = e := by simp [set]

theorem set_of_ne {s' : Fin 2} (h : s' ≠ s) (e : RingEndpoint) :
    (ch.set s e).e s' = ch.e s' := by simp [set, h]

@[simp] theorem set_peerOf : (ch.set s e).peerOf s = ch.peerOf s :=
  set_of_ne (by fin_cases s <;> decide) e

@[simp] theorem set_other_peerOf : (ch.set (1 - s) e).peerOf s = e := set_self e

@[simp] theorem set_other : (ch.set (1 - s) e).e s = ch.e s :=
  set_of_ne (by fin_cases s <;> decide) e

@[simp] theorem peerOf_other : ch.peerOf (1 - s) = ch.e s := congrArg ch.e (by fin_cases s <;> rfl)

/-- The messages that wait at each end. -/
def inboxes (ch : RingChannel) : Inboxes := fun s => (ch.e s).messages

/-- Both ends are open. -/
def BothOpen (ch : RingChannel) : Prop := ∀ s, (ch.e s).closed = false

/-- A store that leaves the closed flag alone. -/
theorem BothOpen.set (h : BothOpen ch) {e : RingEndpoint} (he : e.closed = false) :
    BothOpen (ch.set s e) := by
  intro s'
  by_cases hs : s' = s
  · subst hs
    simpa using he
  · rw [set_of_ne hs]
    exact h s'

theorem inboxes_set : (ch.set s e).inboxes = update ch.inboxes s e.messages := by
  funext s'
  by_cases hs : s' = s
  · subst hs
    simp [inboxes]
  · simp [inboxes, set_of_ne hs, hs]

/-- What receiving can come to. -/
inductive RecvMoves (ch : RingChannel) (s : Fin 2) (cap : ℕ) :
    RingChannel × Except Err (List UInt8) → Prop
  | closed (hclosed : (ch.e s).closed = true) : RecvMoves ch s cap (ch, .error .ebusy)
  | eof (hopen : (ch.e s).closed = false) (hnil : (ch.e s).messages = [])
      (hpeer : (ch.peerOf s).closed = true) : RecvMoves ch s cap (ch, .ok [])
  | again (hopen : (ch.e s).closed = false) (hnil : (ch.e s).messages = [])
      (hpeer : (ch.peerOf s).closed = false) : RecvMoves ch s cap (ch, .error .eagain)
  | big {m : List UInt8} {q : List (List UInt8)} (hopen : (ch.e s).closed = false)
      (hq : (ch.e s).messages = m :: q) (hbig : cap < m.length) :
      RecvMoves ch s cap (ch, .error .enomem)
  | message {m : List UInt8} {q : List (List UInt8)} {e' : RingEndpoint}
      (hopen : (ch.e s).closed = false) (hq : (ch.e s).messages = m :: q) (hfits : m.length ≤ cap)
      (hq' : e'.messages = q) (hsame : e'.toChannelEndpoint = (ch.e s).toChannelEndpoint) :
      RecvMoves ch s cap (ch.set s e', .ok m)

theorem nxChannelRecv_moves (ch : RingChannel) (s : Fin 2) {cap : ℕ} (hcap : cap ≠ 0) :
    RecvMoves ch s cap (ch.nxChannelRecv (some s) (some cap)) := by
  simp only [nxChannelRecv, if_neg hcap]
  split_ifs with hclosed hempty hpeer hbig
  · exact .closed hclosed
  · exact .eof (by simpa using hclosed) (RingEndpoint.messages_eq_nil.2 hempty) hpeer
  · exact .again (by simpa using hclosed) (RingEndpoint.messages_eq_nil.2 hempty) (by simpa using hpeer)
  · exact .big (by simpa using hclosed) (RingEndpoint.messages_pop hempty) hbig
  · exact .message (by simpa using hclosed) (RingEndpoint.messages_pop hempty) (not_lt.1 hbig) rfl rfl

/-- There is nothing to receive yet. -/
theorem nxChannelRecv_eagain_iff (ch : RingChannel) (s : Fin 2) {cap : ℕ} (hcap : cap ≠ 0) :
    (ch.nxChannelRecv (some s) (some cap)).2 = .error .eagain ↔
    (ch.e s).closed = false ∧ (ch.peerOf s).closed = false ∧ (ch.e s).messages = [] := by
  have hmoves := nxChannelRecv_moves ch s hcap
  generalize ch.nxChannelRecv (some s) (some cap) = r at hmoves
  cases hmoves with
  | closed hclosed => simp [hclosed]
  | eof hopen hnil hpeer => simp [hpeer]
  | again hopen hnil hpeer => simp [hopen, hnil, hpeer]
  | big hopen hq hbig => simp [hq]
  | message hopen hq hfits hq' hsame => simp [hq]

/-- What sending can come to. -/
inductive SendMoves (ch : RingChannel) (s : Fin 2)
    (data : List UInt8) : RingChannel × Except Err ℕ → Prop
  | refused (e : Err) : SendMoves ch s data (ch, .error e)
  | sent {e' : RingEndpoint} (hopen : (ch.e s).closed = false) (hpeer : (ch.peerOf s).closed = false)
      (hq : e'.messages = (ch.peerOf s).messages ++ [data])
      (hsame : e'.toChannelEndpoint = (ch.peerOf s).toChannelEndpoint) :
      SendMoves ch s data (ch.set (1 - s) e', .ok data.length)

theorem nxChannelSend_moves (ch : RingChannel) (s : Fin 2) (data : List UInt8) :
    SendMoves ch s data (ch.nxChannelSend (some s) (some data)) := by
  simp only [nxChannelSend]
  split_ifs with hlen hclosed hpeer hfull
  · exact .refused _
  · exact .refused _
  · exact .refused _
  · exact .refused _
  · rw [RingEndpoint.full_iff, not_not] at hfull
    exact .sent (by simpa using hclosed) (by simpa using hpeer)
      (RingEndpoint.messages_push hfull data) rfl

/-- Sending on an open channel. -/
theorem nxChannelSend_spec (h : BothOpen ch) (data : List UInt8) :
    let res := ch.nxChannelSend (some s) (some data)
    BothOpen res.1 ∧ (res.1.inboxes, res.2) = ch.inboxes.send s data := by
  simp only [nxChannelSend, Inboxes.send, h s, peerOf, h (1 - s), Bool.false_eq_true, ↓reduceIte,
    RingEndpoint.full_iff]
  by_cases hlen : data.length > nxChannelMsgMax
  · simp [hlen, h]
  · by_cases hroom : (ch.e (1 - s)).messages.length < 7
    · have hroom' : (ch.inboxes (1 - s)).length < 7 := hroom
      simp only [if_neg hlen, hroom, hroom', not_true_eq_false, ↓reduceIte]
      refine ⟨h.set (h (1 - s)), ?_⟩
      rw [inboxes_set, RingEndpoint.messages_push hroom]
      rfl
    · have hroom' : ¬ (ch.inboxes (1 - s)).length < 7 := hroom
      simp only [if_neg hlen, hroom, hroom', not_false_eq_true, ↓reduceIte, and_true]
      exact h

/-- Receiving on an open channel. -/
theorem nxChannelRecv_spec (h : BothOpen ch) (cap : ℕ) :
    let res := ch.nxChannelRecv (some s) (some cap)
    BothOpen res.1 ∧ (res.1.inboxes, res.2) = ch.inboxes.recv s cap := by
  simp only [nxChannelRecv, Inboxes.recv, h s, peerOf, h (1 - s), Bool.false_eq_true, ↓reduceIte]
  by_cases hcap : cap = 0
  · simp [hcap, h]
  · simp only [hcap, ↓reduceIte]
    by_cases hempty : (ch.e s).head = (ch.e s).tail
    · have hnil : ch.inboxes s = [] := RingEndpoint.messages_eq_nil.2 hempty
      simp [hempty, hnil, h]
    · have hcons : ch.inboxes s = _ :: _ := RingEndpoint.messages_pop hempty
      simp only [hempty, ↓reduceIte, hcons]
      by_cases hbig : ((ch.e s).ring (ch.e s).head).length > cap
      · simp [hbig, h]
      · simp only [hbig, ↓reduceIte, inboxes_set, and_true]
        exact h.set (h s)

/-- What is reported of an open channel. -/
theorem nxChannelEndpointReadiness_spec (h : BothOpen ch) (want : UInt16) :
    ch.nxChannelEndpointReadiness (some s) want = ch.inboxes.readiness s want := by
  have hin : (ch.e s).head ≠ (ch.e s).tail ↔ ch.inboxes s ≠ [] :=
    not_congr RingEndpoint.messages_eq_nil.symm
  have hout : ((ch.peerOf s).tail + 1) % nxChannelRingLen ≠ (ch.peerOf s).head ↔
      (ch.inboxes (1 - s)).length < 7 :=
    (not_congr RingEndpoint.full_iff).trans not_not
  have hpeer : (ch.peerOf s).closed = false := h (1 - s)
  simp [nxChannelEndpointReadiness, Inboxes.readiness, h s, hpeer, hin, hout]

/-! ### Sequences of operations -/

/-- An operation on an open channel. -/
inductive ChanOp where
  | send (s : Fin 2) (data : List UInt8)
  | recv (s : Fin 2) (cap : ℕ)
  | readiness (s : Fin 2) (want : UInt16)
  deriving DecidableEq, Repr

/-- What an operation returns. -/
inductive ChanResult where
  | sent (r : Except Err ℕ)
  | received (r : Except Err (List UInt8))
  | ready (revents : UInt16)

/-- An operation on the channel. -/
def step (ch : RingChannel) : ChanOp → RingChannel × ChanResult
  | .send s data => ((ch.nxChannelSend (some s) (some data)).1,
        .sent (ch.nxChannelSend (some s) (some data)).2)
  | .recv s cap => ((ch.nxChannelRecv (some s) (some cap)).1,
        .received (ch.nxChannelRecv (some s) (some cap)).2)
  | .readiness s want => (ch, .ready (ch.nxChannelEndpointReadiness (some s) want))

/-- The same operation on the two queues. -/
def fifoStep (q : Inboxes) : ChanOp → Inboxes × ChanResult
  | .send s data => ((q.send s data).1, .sent (q.send s data).2)
  | .recv s cap => ((q.recv s cap).1, .received (q.recv s cap).2)
  | .readiness s want => (q, .ready (q.readiness s want))

/-- The channel is open and its messages are those of the queues. -/
def Refines (ch : RingChannel) (q : Inboxes) : Prop := BothOpen ch ∧ ch.inboxes = q

theorem step_refines (ch : RingChannel) (q : Inboxes) (op : ChanOp) (h : Refines ch q) :
    Refines (ch.step op).1 (fifoStep q op).1 ∧ (ch.step op).2 = (fifoStep q op).2 := by
  obtain ⟨hopen, rfl⟩ := h
  cases op with
  | send s data =>
    obtain ⟨hopen', heq⟩ := nxChannelSend_spec (s := s) hopen data
    rw [Prod.ext_iff] at heq
    exact ⟨⟨hopen', heq.1⟩, congrArg ChanResult.sent heq.2⟩
  | recv s cap =>
    obtain ⟨hopen', heq⟩ := nxChannelRecv_spec (s := s) hopen cap
    rw [Prod.ext_iff] at heq
    exact ⟨⟨hopen', heq.1⟩, congrArg ChanResult.received heq.2⟩
  | readiness s want => exact ⟨⟨hopen, rfl⟩, congrArg ChanResult.ready
      (nxChannelEndpointReadiness_spec hopen want)⟩

theorem refines_new : Refines {} fun _ => [] := ⟨fun _ => rfl, rfl⟩

/-- Receiving at an end of the queues fails with `NX_EAGAIN` when there is nothing. -/
theorem recv_eagain_iff {q : Inboxes} {cap : ℕ} (hcap : cap ≠ 0) :
    (q.recv s cap).2 = .error .eagain ↔ q s = [] := by
  unfold Inboxes.recv
  rw [if_neg hcap]
  cases hq : q s with
  | nil => simp
  | cons m rest => by_cases hbig : m.length > cap <;> simp [hbig]

theorem send_ebusy_iff {q : Inboxes} {data : List UInt8} (hlen : data.length ≤ nxChannelMsgMax) :
    (q.send s data).2 = .error .ebusy ↔ ¬ (q (1 - s)).length < 7 := by
  unfold Inboxes.send
  rw [if_neg (not_lt.2 hlen)]
  split_ifs with h <;> simp [h]

/-- The bits of what is reported. -/
theorem readiness_bits (q : Inboxes) (want : UInt16) :
    (q.readiness s want &&& nxPollin ≠ 0 ↔ want &&& nxPollin ≠ 0 ∧ q s ≠ []) ∧
      (q.readiness s want &&& nxPollout ≠ 0 ↔ want &&& nxPollout ≠ 0 ∧ (q (1 - s)).length < 7) := by
  unfold Inboxes.readiness
  split_ifs with hin hout hout
  · exact ⟨iff_of_true (by decide) hin, iff_of_true (by decide) hout⟩
  · exact ⟨iff_of_true (by decide) hin, iff_of_false (by decide) hout⟩
  · exact ⟨iff_of_false (by decide) hin, iff_of_true (by decide) hout⟩
  · exact ⟨iff_of_false (by decide) hin, iff_of_false (by decide) hout⟩

/-- **A channel whose ends are open is two queues**: over any sequence of operations it returns what
two queues with room for seven messages each return, and holds what they hold. What is reported as
ready is what would not fail: an end that can be read, where receiving would not return `NX_EAGAIN`,
and one that can be written, where sending would not return `NX_EBUSY`. -/
theorem channel_refines_fifo (ops : List ChanOp) :
    let ch := (runOutputs step {} ops).1
    let q := (runOutputs fifoStep (fun _ => []) ops).1
    (runOutputs step {} ops).2 = (runOutputs fifoStep (fun _ => []) ops).2 ∧ Refines ch q ∧
      (∀ s, (q s).length ≤ 7) ∧
      (∀ s want cap, want &&& nxPollin ≠ 0 → cap ≠ 0 →
        (ch.nxChannelEndpointReadiness (some s) want &&& nxPollin ≠ 0 ↔
          (ch.nxChannelRecv (some s) (some cap)).2 ≠ .error .eagain)) ∧
      (∀ s want data, want &&& nxPollout ≠ 0 → data.length ≤ nxChannelMsgMax →
        (ch.nxChannelEndpointReadiness (some s) want &&& nxPollout ≠ 0 ↔
          (ch.nxChannelSend (some s) (some data)).2 ≠ .error .ebusy)) := by
  intro ch q
  obtain ⟨hrefines, houts⟩ := runOutputs_sim step_refines refines_new ops
  have hopen : BothOpen ch := hrefines.1
  have hq : ch.inboxes = q := hrefines.2
  refine ⟨houts, hrefines, ?_, ?_, ?_⟩
  · intro s
    rw [← hq, inboxes, RingEndpoint.length_messages]
    exact Nat.lt_succ_iff.1 RingEndpoint.depth_lt
  · intro s want cap hwant hcap
    have hrecv : (ch.nxChannelRecv (some s) (some cap)).2 = (ch.inboxes.recv s cap).2 :=
      (Prod.ext_iff.1 (nxChannelRecv_spec hopen cap).2).2
    rw [nxChannelEndpointReadiness_spec hopen, (readiness_bits _ want).1, hrecv]
    exact (and_iff_right hwant).trans (not_congr (recv_eagain_iff hcap).symm)
  · intro s want data hwant hlen
    have hsend : (ch.nxChannelSend (some s) (some data)).2 = (ch.inboxes.send s data).2 :=
      (Prod.ext_iff.1 (nxChannelSend_spec hopen data).2).2
    rw [nxChannelEndpointReadiness_spec hopen, (readiness_bits _ want).2, hsend]
    exact (and_iff_right hwant).trans ((not_congr (send_ebusy_iff hlen)).trans not_not).symm

end RingChannel

end Nonux.Framework
