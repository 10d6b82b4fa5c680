import Mathlib.Data.List.Infix
import Mathlib.Logic.Function.Basic
import Mathlib.Tactic.Common

set_option autoImplicit false

/-! # Channels as histories

A first-in first-out channel is kept as everything that has been sent on it and how much of that has
been taken. What a sender knows about it then stays true for ever, and what a receiver has taken is
a prefix of what was sent. -/

variable {α : Type}

/-- A channel. -/
structure Channel (α : Type) where
  sent : List α
  taken : ℕ

namespace Channel

/-- Nothing has been sent. -/
def empty : Channel α := ⟨[], 0⟩

/-- Send `a`. -/
def push (c : Channel α) (a : α) : Channel α :=
  { c with sent := c.sent ++ [a] }

/-- What the next receive takes. -/
def next? (c : Channel α) : Option α :=
  c.sent[c.taken]?

/-- Take the next message. -/
def pop (c : Channel α) : Channel α :=
  { c with taken := c.taken + 1 }

/-- Send all of `l`. -/
def pushAll (c : Channel α) (l : List α) : Channel α :=
  { c with sent := c.sent ++ l }

/-- Take the next `n` messages. -/
def advance (c : Channel α) (n : ℕ) : Channel α :=
  { c with taken := c.taken + n }

/-- Drop what has not been taken. -/
def flush (c : Channel α) : Channel α :=
  { c with taken := c.sent.length }

/-- What has been sent and not been taken. -/
def pending (c : Channel α) : List α :=
  c.sent.drop c.taken

@[simp] theorem push_sent (c : Channel α) (a : α) : (c.push a).sent = c.sent ++ [a] := rfl

@[simp] theorem push_taken (c : Channel α) (a : α) : (c.push a).taken = c.taken := rfl

@[simp] theorem pop_sent (c : Channel α) : c.pop.sent = c.sent := rfl

@[simp] theorem pop_taken (c : Channel α) : c.pop.taken = c.taken + 1 := rfl

@[simp] theorem pushAll_sent (c : Channel α) (l : List α) : (c.pushAll l).sent = c.sent ++ l := rfl

@[simp] theorem pushAll_taken (c : Channel α) (l : List α) : (c.pushAll l).taken = c.taken := rfl

@[simp] theorem advance_sent (c : Channel α) (n : ℕ) : (c.advance n).sent = c.sent := rfl

@[simp] theorem advance_taken (c : Channel α) (n : ℕ) : (c.advance n).taken = c.taken + n := rfl

@[simp] theorem flush_sent (c : Channel α) : c.flush.sent = c.sent := rfl

@[simp] theorem flush_taken (c : Channel α) : c.flush.taken = c.sent.length := rfl

theorem pop_taken_le {c : Channel α} {a : α} (h : c.next? = some a) :
    c.pop.taken ≤ c.pop.sent.length :=
  (List.getElem?_eq_some_iff.1 h).1

/-- What stands in the channel from a point on is still to be taken. -/
theorem mem_drop_of_mem_pending {c : Channel α} {l : List α} (hl : c.sent <+: l) {n : ℕ}
    (hn : n ≤ c.taken) {a : α} (ha : a ∈ c.pending) : a ∈ l.drop n := by
  obtain ⟨t, rfl⟩ := hl
  have hmem : a ∈ (c.sent ++ t).drop c.taken := by
    rw [List.drop_append]
    exact List.mem_append_left _ ha
  obtain ⟨d, hd⟩ := Nat.exists_eq_add_of_le hn
  rw [hd, ← List.drop_drop] at hmem
  exact List.mem_of_mem_drop hmem

/-- A message that is pending after a send was pending before, or has just been sent. -/
theorem mem_pending_push {c : Channel α} {a b : α} (h : a ∈ (c.push b).pending) :
    a ∈ c.pending ∨ a = b := by
  rw [pending, push_sent, push_taken, List.drop_append] at h
  rcases List.mem_append.1 h with h | h
  · exact .inl h
  · exact .inr (List.mem_singleton.1 (List.mem_of_mem_drop h))

theorem mem_sent_update_push {ι : Type} [DecidableEq ι] (f : ι → Channel α) (i j : ι) (a b : α) :
    a ∈ (Function.update f i ((f i).push b) j).sent ↔ a ∈ (f j).sent ∨ (a = b ∧ j = i) := by
  by_cases hj : j = i
  · subst hj
    rw [Function.update_self, push_sent, List.mem_append, List.mem_singleton]
    simp only [and_true]
  · simp only [Function.update_of_ne hj, hj, and_false, or_false]

theorem pending_push_of_nil {c : Channel α} (hle : c.taken ≤ c.sent.length) (h : c.pending = [])
    (a : α) : (c.push a).pending = [a] := by
  rw [pending] at h
  rw [pending, push_sent, push_taken, List.drop_append_of_le_length hle, h]
  rfl

theorem mem_pending_of_pop {c : Channel α} {a : α} (h : a ∈ c.pop.pending) : a ∈ c.pending := by
  rw [pending, pop_sent, pop_taken, ← List.drop_drop] at h
  exact List.mem_of_mem_drop h

/-- The first of the pending messages is taken next. -/
theorem next_of_pending {c : Channel α} {a : α} {l : List α} (h : c.pending = a :: l) :
    c.next? = some a ∧ c.pop.pending = l := by
  rw [pending] at h
  constructor
  · rw [next?, ← List.head?_drop, h]
    rfl
  · rw [pending, pop_sent, pop_taken, ← List.drop_drop, h]
    rfl

/-- What is taken from a channel is the next part of all that will ever be sent on it. -/
theorem take_pending {c : Channel α} {l : List α} (hl : c.sent <+: l)
    (hle : c.taken ≤ c.sent.length) {n : ℕ} (hn : n ≤ c.pending.length) :
    c.pending.take n = (l.drop c.taken).take n ∧ n ≤ (l.drop c.taken).length := by
  obtain ⟨later, rfl⟩ := hl
  rw [List.drop_append_of_le_length hle]
  constructor
  · exact (List.take_append_of_le_length hn).symm
  · rw [List.length_append]
    exact hn.trans (Nat.le_add_right _ _)

theorem advance_taken_le {c : Channel α} (hle : c.taken ≤ c.sent.length) {n : ℕ}
    (hn : n ≤ c.pending.length) : (c.advance n).taken ≤ (c.advance n).sent.length := by
  rw [pending, List.length_drop] at hn
  rw [advance_taken, advance_sent]
  omega

/-- What a channel may do in a step: nothing, take in more messages, or hand out some of those that
    are pending. -/
inductive Moves : Channel α → Channel α → Prop
  | stay (c : Channel α) : Moves c c
  | push (c : Channel α) (l : List α) : Moves c (c.pushAll l)
  | take (c : Channel α) {n : ℕ} (h : n ≤ c.pending.length) : Moves c (c.advance n)

end Channel

/-! ## Prefixes -/

theorem List.IsPrefix.getElem?_eq_some {l l' : List α} (h : l <+: l') {i : ℕ} {a : α}
    (ha : l[i]? = some a) : l'[i]? = some a := by
  obtain ⟨t, rfl⟩ := h
  obtain ⟨hi, -⟩ := List.getElem?_eq_some_iff.1 ha
  rw [List.getElem?_append_left hi, ha]

/-- Every message on the list is the one the stream has at its position. -/
def Follows (stream : ℕ → α) (l : List α) : Prop :=
  ∀ i a, l[i]? = some a → a = stream i

theorem Follows.nil (stream : ℕ → α) : Follows stream [] := by
  intro i a h
  exact absurd h (by simp)

theorem Follows.concat {stream : ℕ → α} {l : List α} (h : Follows stream l) :
    Follows stream (l ++ [stream l.length]) := by
  intro i a hi
  rw [List.getElem?_append] at hi
  split at hi
  · exact h i a hi
  · next hlen =>
      obtain ⟨hlt, hget⟩ := List.getElem?_eq_some_iff.1 hi
      simp only [List.length_singleton] at hlt
      obtain rfl : i = l.length := by omega
      simpa using hget.symm

theorem Follows.take_eq {stream : ℕ → α} {l : List α} (h : Follows stream l) {n : ℕ}
    (hn : n ≤ l.length) : l.take n = (List.range n).map stream := by
  refine List.ext_getElem? (fun i => ?_)
  rw [List.getElem?_take, List.getElem?_map]
  by_cases hi : i < n
  · obtain ⟨a, ha⟩ : ∃ a, l[i]? = some a := ⟨_, List.getElem?_eq_getElem (hi.trans_le hn)⟩
    rw [if_pos hi, ha, h i a ha, List.getElem?_range hi]
    rfl
  · rw [if_neg hi, List.getElem?_eq_none (by simpa using hi)]
    rfl

/-! ## Tables with two indices -/

/-- Replace one entry. -/
def updateAt (f : ℕ → ℕ → α) (i j : ℕ) (v : α) : ℕ → ℕ → α :=
  fun a b => if a = i ∧ b = j then v else f a b

theorem updateAt_apply (f : ℕ → ℕ → α) (i j : ℕ) (v : α) (a b : ℕ) :
    updateAt f i j v a b = if a = i ∧ b = j then v else f a b := rfl

@[simp] theorem updateAt_self (f : ℕ → ℕ → α) (i j : ℕ) (v : α) : updateAt f i j v i j = v := by
  simp [updateAt]

theorem updateAt_of_ne_left (f : ℕ → ℕ → α) {i j : ℕ} (v : α) {a b : ℕ} (h : a ≠ i) :
    updateAt f i j v a b = f a b := by
  simp [updateAt, h]

theorem updateAt_of_ne_right (f : ℕ → ℕ → α) {i j : ℕ} (v : α) {a b : ℕ} (h : b ≠ j) :
    updateAt f i j v a b = f a b := by
  simp [updateAt, h]

theorem le_updateAt_succ (f : ℕ → ℕ → ℕ) (i j a b : ℕ) : f a b ≤ updateAt f i j (f i j + 1) a b := by
  rw [updateAt_apply]
  split
  · next h =>
      rw [h.1, h.2]
      exact Nat.le_succ _
  · exact le_refl _

namespace Channel

/-- Taking from one channel of a table leaves alone what has been sent on any. -/
@[simp] theorem updateAt_pop_sent (f : ℕ → ℕ → Channel α) (i j a b : ℕ) :
    (updateAt f i j (f i j).pop a b).sent = (f a b).sent := by
  rw [updateAt_apply]
  split
  · next h => rw [h.1, h.2, pop_sent]
  · rfl

/-- Sending on one channel of a table leaves alone what has been taken from any. -/
@[simp] theorem updateAt_push_taken (f : ℕ → ℕ → Channel α) (i j : ℕ) (x : α) (a b : ℕ) :
    (updateAt f i j ((f i j).push x) a b).taken = (f a b).taken := by
  rw [updateAt_apply]
  split
  · next h => rw [h.1, h.2, push_taken]
  · rfl

theorem le_updateAt_pop_taken (f : ℕ → ℕ → Channel α) (i j a b : ℕ) :
    (f a b).taken ≤ (updateAt f i j (f i j).pop a b).taken := by
  rw [updateAt_apply]
  split
  · next h =>
      rw [h.1, h.2, pop_taken]
      exact Nat.le_succ _
  · exact le_refl _

theorem le_updateAt_push_sent (f : ℕ → ℕ → Channel α) (i j : ℕ) (x : α) (a b : ℕ) :
    (f a b).sent.length ≤ (updateAt f i j ((f i j).push x) a b).sent.length := by
  rw [updateAt_apply]
  split
  · next h =>
      rw [h.1, h.2, push_sent, List.length_append]
      exact Nat.le_add_right _ _
  · exact le_refl _

/-- What holds of what has been sent on every channel of a table still does after a send, if it does
    on the channel of the send. -/
theorem updateAt_push_sent {p : ℕ → ℕ → List α → Prop} {f : ℕ → ℕ → Channel α}
    (h : ∀ a b, p a b (f a b).sent) {i j : ℕ} {x : α} (hx : p i j ((f i j).sent ++ [x])) (a b : ℕ) :
    p a b (updateAt f i j ((f i j).push x) a b).sent := by
  rw [updateAt_apply]
  split
  · next hab =>
      rw [hab.1, hab.2, push_sent]
      exact hx
  · exact h a b

end Channel

theorem List.IsPrefix.take_eq {l l' : List α} (h : l <+: l') {n : ℕ} (hn : n ≤ l.length) :
    l'.take n = l.take n := by
  obtain ⟨t, rfl⟩ := h
  exact List.take_append_of_le_length hn
