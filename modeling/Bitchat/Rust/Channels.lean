import Bitchat.Rust.Map
import Mathlib.Data.Nat.Log

/-!
# Channels between tasks

A bounded and an unbounded channel with one receiver, and a broadcast. A broadcast keeps the last
values of all that were sent; a subscriber that falls behind them lags and goes
on at the oldest one that is left. Histories are not part of a channel: `Passes`
and `Follows` relate what was sent and received to it.
-/
namespace Rust

/-- A bounded channel: what was sent and not received, oldest first. -/
structure Mpsc (α : Type) where
  capacity : ℕ
  queue : List α
  bounded : queue.length ≤ capacity

namespace Mpsc

variable {α : Type} {c c' : Mpsc α} {a : α}

def new (capacity : ℕ) : Mpsc α := ⟨capacity, [], Nat.zero_le capacity⟩

/-- `try_send`. A `send` that waits goes on as soon as this succeeds. -/
def trySend (c : Mpsc α) (a : α) : Option (Mpsc α) :=
  if room : c.queue.length < c.capacity then
    some ⟨c.capacity, c.queue ++ [a], by rw [List.length_append]; exact room⟩
  else none

/-- The oldest value, if there is one. -/
def recv (c : Mpsc α) : Option (α × Mpsc α) :=
  match hqueue : c.queue with
  | [] => none
  | a :: rest =>
    some (a, ⟨c.capacity, rest, by
      have bounded := c.bounded
      rw [hqueue, List.length_cons] at bounded
      omega⟩)

theorem trySend_eq_some (h : c.trySend a = some c') :
    c'.queue = c.queue ++ [a] ∧ c'.capacity = c.capacity := by
  unfold trySend at h
  split_ifs at h
  obtain rfl := Option.some.inj h
  exact ⟨rfl, rfl⟩

theorem trySend_isSome : (c.trySend a).isSome ↔ c.queue.length < c.capacity := by
  unfold trySend
  split_ifs with room <;> simp [room]

theorem recv_eq_some (h : c.recv = some (a, c')) :
    c.queue = a :: c'.queue ∧ c'.capacity = c.capacity := by
  unfold recv at h
  split at h
  · cases h
  · rename_i b rest hqueue
    obtain ⟨rfl, rfl⟩ := Prod.mk.inj (Option.some.inj h)
    exact ⟨hqueue, rfl⟩

theorem recv_eq_none : c.recv = none ↔ c.queue = [] := by
  unfold recv
  split <;> simp_all

/-- What was sent is what was received and what is still there. -/
def Passes (sent received : List α) (c : Mpsc α) : Prop := sent = received ++ c.queue

theorem passes_new (capacity : ℕ) : Passes [] [] (new capacity : Mpsc α) := rfl

variable {sent received : List α}

theorem Passes.trySend (h : Passes sent received c) (hsend : c.trySend a = some c') :
    Passes (sent ++ [a]) received c' := by
  unfold Passes at h ⊢
  rw [(trySend_eq_some hsend).1, h, List.append_assoc]

theorem Passes.recv (h : Passes sent received c) (hrecv : c.recv = some (a, c')) :
    Passes sent (received ++ [a]) c' := by
  unfold Passes at h ⊢
  rw [h, (recv_eq_some hrecv).1, List.append_assoc, List.singleton_append]

end Mpsc

/-- An unbounded channel with one receiver, which may be dropped. -/
structure Unbounded (α : Type) where
  queue : List α
  isOpen : Bool

namespace Unbounded

variable {α : Type} {c c' : Unbounded α} {a : α}

def new : Unbounded α := ⟨[], true⟩

/-- Sending fails when the receiver is gone. -/
def send (c : Unbounded α) (a : α) : Option (Unbounded α) :=
  if c.isOpen then some { c with queue := c.queue ++ [a] } else none

/-- What sending does while the receiver is there. -/
def push (c : Unbounded α) (a : α) : Unbounded α := { c with queue := c.queue ++ [a] }

def recv (c : Unbounded α) : Option (α × Unbounded α) :=
  match c.queue with
  | [] => none
  | a :: rest => some (a, { c with queue := rest })

/-- The receiver is dropped. -/
def close (c : Unbounded α) : Unbounded α := { c with isOpen := false }

theorem send_eq_some (h : c.send a = some c') :
    c.isOpen = true ∧ c'.queue = c.queue ++ [a] ∧ c'.isOpen = true := by
  unfold send at h
  split_ifs at h with hopen
  obtain rfl := Option.some.inj h
  exact ⟨hopen, rfl, hopen⟩

theorem send_of_open (h : c.isOpen = true) : c.send a = some (c.push a) := if_pos h

@[simp] theorem queue_push : (c.push a).queue = c.queue ++ [a] := rfl

@[simp] theorem isOpen_push : (c.push a).isOpen = c.isOpen := rfl

theorem recv_eq_some (h : c.recv = some (a, c')) :
    c.queue = a :: c'.queue ∧ c'.isOpen = c.isOpen := by
  unfold recv at h
  split at h
  · cases h
  · rename_i b rest hqueue
    obtain ⟨rfl, rfl⟩ := Prod.mk.inj (Option.some.inj h)
    exact ⟨hqueue, rfl⟩

/-- The sender ends with `last`; then it sends no more, and the receiver goes when it has
received that. -/
structure EndedBy (last : α) (sending : Bool) (c : Unbounded α) : Prop where
  once : ∀ before after, c.queue = before ++ last :: after → after = []
  closed : c.isOpen = false → c.queue = []
  going : sending = true → c.isOpen = true ∧ last ∉ c.queue

variable {last : α} {sending sending' : Bool}

theorem endedBy_new : EndedBy last sending (new : Unbounded α) := by
  constructor <;> simp [new]

theorem EndedBy.push (h : EndedBy last true c) (ha : a ≠ last) :
    EndedBy last sending (c.push a) := by
  obtain ⟨hopen, hlast⟩ := h.going rfl
  have fresh : last ∉ (c.push a).queue := by simp [hlast, Ne.symm ha]
  constructor
  · intro before after hqueue
    rw [hqueue] at fresh
    simp at fresh
  · intro hclosed
    rw [isOpen_push, hopen] at hclosed
    cases hclosed
  · exact fun _ => ⟨hopen, fresh⟩

theorem EndedBy.finish (h : EndedBy last true c) : EndedBy last false (c.push last) := by
  obtain ⟨hopen, hlast⟩ := h.going rfl
  constructor
  · intro before after hqueue
    rw [queue_push] at hqueue
    obtain rfl | ⟨rest, b, rfl⟩ := List.eq_nil_or_concat' after
    · rfl
    · have hinit : c.queue = before ++ last :: rest := by
        rw [← List.cons_append, ← List.append_assoc] at hqueue
        exact (List.append_inj' hqueue rfl).1
      rw [hinit] at hlast
      simp at hlast
  · intro hclosed
    rw [isOpen_push, hopen] at hclosed
    cases hclosed
  · exact fun h => by cases h

theorem EndedBy.mono (h : EndedBy last sending c) (hle : sending' = true → sending = true) :
    EndedBy last sending' c :=
  ⟨h.once, h.closed, fun hsending => h.going (hle hsending)⟩

theorem EndedBy.recv (h : EndedBy last sending c) (hrecv : c.recv = some (a, c')) :
    EndedBy last sending c' := by
  obtain ⟨hqueue, hopen⟩ := recv_eq_some hrecv
  constructor
  · intro before after hrest
    apply h.once (a :: before) after
    rw [hqueue, hrest, List.cons_append]
  · intro hclosed
    rw [hopen] at hclosed
    rw [h.closed hclosed] at hqueue
    cases hqueue
  · intro hsending
    obtain ⟨hopened, hlast⟩ := h.going hsending
    rw [hqueue] at hlast
    exact ⟨hopen.trans hopened, fun hmem => hlast (List.mem_cons_of_mem a hmem)⟩

/-- The last message is received last. -/
theorem EndedBy.recv_last (h : EndedBy last sending c) (hrecv : c.recv = some (last, c')) :
    sending = false ∧ c'.queue = [] ∧ EndedBy last sending c'.close := by
  obtain ⟨hqueue, -⟩ := recv_eq_some hrecv
  have hempty : c'.queue = [] := h.once [] c'.queue hqueue
  have hover : sending = false := by
    cases sending with
    | false => rfl
    | true =>
      have hlast := (h.going rfl).2
      rw [hqueue] at hlast
      exact absurd List.mem_cons_self hlast
  refine ⟨hover, hempty, ?_⟩
  constructor
  · intro before after hrest
    have hrest' : c'.queue = before ++ last :: after := hrest
    rw [hempty] at hrest'
    simp at hrest'
  · exact fun _ => hempty
  · intro hsending
    rw [hover] at hsending
    cases hsending

end Unbounded

/-- A broadcast: all values sent so far, of which the last `capacity` are kept, and
for each subscriber the number of values behind it. -/
structure Broadcast (κ α : Type) where
  capacity : ℕ
  sent : List α
  positions : Map κ ℕ

/-- What a subscriber gets. -/
inductive Delivery (α : Type) where
  | value (a : α)
  | lagged (missed : ℕ)
  | empty
  deriving DecidableEq

namespace Broadcast

variable {κ α : Type} [DecidableEq κ]

/-- `broadcast::channel`, which rounds the capacity up to a power of two. -/
def new (capacity : ℕ) : Broadcast κ α := ⟨2 ^ Nat.clog 2 capacity, [], ∅⟩

/-- A new subscriber gets what is sent from now on. -/
def subscribe (b : Broadcast κ α) (k : κ) : Broadcast κ α :=
  { b with positions := b.positions.insert k b.sent.length }

/-- The receiver is dropped. -/
def unsubscribe (b : Broadcast κ α) (k : κ) : Broadcast κ α :=
  { b with positions := b.positions.erase k }

/-- Sending fails when nobody subscribes. -/
def send (b : Broadcast κ α) (a : α) : Option (Broadcast κ α) :=
  if Map.size b.positions = 0 then none else some { b with sent := b.sent ++ [a] }

/-- The next value for a subscriber, unless it is gone already. -/
def recv (b : Broadcast κ α) (k : κ) : Delivery α × Broadcast κ α :=
  match b.positions.lookup k with
  | none => (.empty, b)
  | some n =>
    if n + b.capacity < b.sent.length then
      (.lagged (b.sent.length - b.capacity - n),
        { b with positions := b.positions.insert k (b.sent.length - b.capacity) })
    else
      match b.sent[n]? with
      | some a => (.value a, { b with positions := b.positions.insert k (n + 1) })
      | none => (.empty, b)

/-- Someone subscribes. -/
def Heard (b : Broadcast κ α) : Prop := ∃ k, (b.positions.lookup k).isSome

/-- What a subscriber has got is the beginning of what was sent, and its position
says how much of it. -/
structure Follows (received : List α) (b : Broadcast κ α) (k : κ) : Prop where
  before : received <+: b.sent
  place : ∀ n, b.positions.lookup k = some n → n = received.length

variable {b b' : Broadcast κ α} {k j : κ} {a : α} {received : List α}

theorem size_positions_eq_zero : Map.size b.positions = 0 ↔ ¬ b.Heard := by
  rw [Map.size, Finset.card_eq_zero, Heard, Finset.eq_empty_iff_forall_notMem]
  simp only [Map.mem_keys_iff, Option.isSome_iff_exists, not_exists]

omit [DecidableEq κ] in
theorem send_eq_some (h : b.send a = some b') :
    b'.sent = b.sent ++ [a] ∧ b'.positions = b.positions ∧ b'.capacity = b.capacity := by
  unfold send at h
  split_ifs at h
  obtain rfl := Option.some.inj h
  exact ⟨rfl, rfl, rfl⟩

theorem send_eq_none : b.send a = none ↔ ¬ b.Heard := by
  rw [← size_positions_eq_zero]
  unfold send
  split_ifs with h <;> simp [h]

@[simp] theorem lookup_unsubscribe :
    (b.unsubscribe k).positions.lookup j = if j = k then none else b.positions.lookup j :=
  Map.lookup_erase_if j k b.positions

/-- A value is taken from the position, which moves on by one. -/
theorem recv_eq_value (h : b.recv k = (.value a, b')) : ∃ n,
    b.positions.lookup k = some n ∧ b.sent[n]? = some a ∧ ¬ n + b.capacity < b.sent.length ∧
      b' = { b with positions := b.positions.insert k (n + 1) } := by
  unfold recv at h
  cases hplace : b.positions.lookup k with
  | none =>
    rw [hplace] at h
    cases (Prod.mk.inj h).1
  | some n =>
    simp only [hplace] at h
    split_ifs at h with hlag
    · cases (Prod.mk.inj h).1
    · cases hvalue : b.sent[n]? with
      | none =>
        rw [hvalue] at h
        cases (Prod.mk.inj h).1
      | some c =>
        rw [hvalue] at h
        obtain ⟨hc, rfl⟩ := Prod.mk.inj h
        obtain rfl := Delivery.value.inj hc
        exact ⟨n, rfl, hvalue, hlag, rfl⟩

/-- A subscriber lags when more is sent behind it than the broadcast keeps. -/
theorem recv_lags_iff : (∃ missed, (b.recv k).1 = .lagged missed) ↔
    ∃ n, b.positions.lookup k = some n ∧ n + b.capacity < b.sent.length := by
  unfold recv
  cases hplace : b.positions.lookup k with
  | none => simp
  | some n =>
    simp only [Option.some.injEq, exists_eq_left']
    split_ifs with hlag
    · simp [hlag]
    · cases b.sent[n]? with
      | none => simp [hlag]
      | some c => simp [hlag]

/-- A subscriber finds nothing when it has got everything that was sent. -/
theorem recv_empty_iff {n : ℕ} (hplace : b.positions.lookup k = some n) :
    (b.recv k).1 = .empty ↔ b.sent.length ≤ n := by
  simp only [recv, hplace]
  split_ifs with hlag
  · simp only [false_iff]
    omega
  · cases hvalue : b.sent[n]? with
    | none => simpa using hvalue
    | some c =>
      obtain ⟨hlt, -⟩ := List.getElem?_eq_some_iff.mp hvalue
      simpa using hlt

/-- Whoever is served keeps the values that were sent. -/
@[simp] theorem sent_recv : (b.recv k).2.sent = b.sent := by
  unfold recv
  cases b.positions.lookup k with
  | none => rfl
  | some n =>
    simp only
    split_ifs
    · rfl
    · cases b.sent[n]? <;> rfl

@[simp] theorem capacity_recv : (b.recv k).2.capacity = b.capacity := by
  unfold recv
  cases b.positions.lookup k with
  | none => rfl
  | some n =>
    simp only
    split_ifs
    · rfl
    · cases b.sent[n]? <;> rfl

/-- Several subscribers. -/
@[simp] theorem sent_subscribe_all (b : Broadcast κ α) (ks : List κ) :
    (ks.foldl subscribe b).sent = b.sent := by
  induction ks generalizing b with
  | nil => rfl
  | cons k rest ih => exact ih (b.subscribe k)

theorem lookup_subscribe_all {b : Broadcast κ α} {ks : List κ} (hsent : b.sent = []) :
    (ks.foldl subscribe b).positions.lookup k =
      if k ∈ ks then some 0 else b.positions.lookup k := by
  induction ks generalizing b with
  | nil => simp
  | cons j rest ih =>
    rw [List.foldl_cons, ih (b := b.subscribe j) hsent, subscribe, Map.lookup_insert_if]
    by_cases hk : k = j <;> simp [hk, hsent]

/-- Those who subscribed at the start follow from the first value on. -/
theorem follows_subscribe_all (capacity : ℕ) (ks : List κ) (k : κ) :
    Follows [] (ks.foldl subscribe (new capacity : Broadcast κ α)) k := by
  constructor
  · exact List.nil_prefix
  · intro n hn
    rw [lookup_subscribe_all rfl] at hn
    split_ifs at hn
    · exact (Option.some.inj hn).symm
    · cases hn

theorem Follows.send (h : Follows received b k) (hsend : b.send a = some b') :
    Follows received b' k := by
  obtain ⟨hsent, hpositions, -⟩ := send_eq_some hsend
  constructor
  · rw [hsent]
    exact h.before.trans (List.prefix_append b.sent [a])
  · rw [hpositions]
    exact h.place

theorem Follows.recv_self (h : Follows received b k) (hrecv : b.recv k = (.value a, b')) :
    Follows (received ++ [a]) b' k := by
  obtain ⟨n, hplace, hvalue, -, rfl⟩ := recv_eq_value hrecv
  obtain rfl := h.place n hplace
  obtain ⟨hlt, hget⟩ := List.getElem?_eq_some_iff.mp hvalue
  constructor
  · rw [List.prefix_iff_eq_take.mp h.before, ← hget, List.take_concat_get' b.sent _ hlt]
    exact List.take_prefix (received.length + 1) b.sent
  · intro m hm
    rw [Finmap.lookup_insert] at hm
    rw [← Option.some.inj hm, List.length_append, List.length_singleton]

theorem Follows.recv_other (h : Follows received b j) (hne : j ≠ k)
    (hrecv : b.recv k = (.value a, b')) : Follows received b' j := by
  obtain ⟨n, -, -, -, rfl⟩ := recv_eq_value hrecv
  constructor
  · exact h.before
  · intro m hm
    rw [Finmap.lookup_insert_of_ne _ hne] at hm
    exact h.place m hm

theorem Follows.unsubscribe (h : Follows received b j) (k : κ) :
    Follows received (b.unsubscribe k) j := by
  constructor
  · exact h.before
  · intro n hn
    rw [lookup_unsubscribe] at hn
    split_ifs at hn
    exact h.place n hn

end Broadcast

end Rust
