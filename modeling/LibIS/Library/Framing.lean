import LibIS.Library.Channel
import Mathlib.Data.List.Basic

set_option autoImplicit false

/-! # Messages on a byte channel

A channel of messages is carried by a channel of bytes that knows nothing of where a message begins.
Sender and receiver are in the middle of a message at any time: the bytes that are `owed` belong to
messages that count as sent and have not been written, and `got` is the part of the next message
that has been read. -/

namespace Channel

variable {α β : Type} {data : α → List β}

/-- The byte channel `wire` carries the messages of `ch`, with the payload `data`. -/
structure Carries (data : α → List β) (wire : Channel β) (ch : Channel α) (owed got : List β) :
    Prop where
  sent : wire.sent ++ owed = ch.sent.flatMap data
  taken : wire.sent.take wire.taken = (ch.sent.take ch.taken).flatMap data ++ got
  taken_le : wire.taken ≤ wire.sent.length
  read_le : ch.taken ≤ ch.sent.length

namespace Carries

variable {wire : Channel β} {ch : Channel α} {owed got bs : List β} {m : α}

theorem empty : Carries data .empty .empty [] [] :=
  ⟨rfl, rfl, le_refl 0, le_refl 0⟩

/-- A message counts as sent before any of it has been written. -/
theorem push (h : Carries data wire ch owed got) (m : α) :
    Carries data wire (ch.push m) (owed ++ data m) got where
  sent := by
    rw [push_sent, List.flatMap_append, ← List.append_assoc, h.sent]
    simp
  taken := by
    rw [push_sent, push_taken, List.take_append_of_le_length h.read_le]
    exact h.taken
  taken_le := h.taken_le
  read_le := by
    rw [push_sent, push_taken, List.length_append]
    exact h.read_le.trans (Nat.le_add_right _ _)

theorem write (h : Carries data wire ch (bs ++ owed) got) :
    Carries data (wire.pushAll bs) ch owed got where
  sent := by
    rw [pushAll_sent, List.append_assoc]
    exact h.sent
  taken := by
    rw [pushAll_sent, pushAll_taken, List.take_append_of_le_length h.taken_le]
    exact h.taken
  taken_le := by
    rw [pushAll_sent, pushAll_taken, List.length_append]
    exact h.taken_le.trans (Nat.le_add_right _ _)
  read_le := h.read_le

theorem read (h : Carries data wire ch owed got) (hbs : bs <+: wire.pending) :
    Carries data (wire.advance bs.length) ch owed (got ++ bs) where
  sent := h.sent
  taken := by
    rw [advance_sent, advance_taken, List.take_add, h.taken, List.append_assoc]
    rw [pending] at hbs
    rw [← List.prefix_iff_eq_take.1 hbs]
  taken_le := advance_taken_le h.taken_le hbs.length_le
  read_le := h.read_le

/-- What has not been read is what is left of the messages. -/
theorem left (h : Carries data wire ch owed got) :
    got ++ wire.pending ++ owed = (ch.sent.drop ch.taken).flatMap data := by
  have hall : (ch.sent.take ch.taken).flatMap data ++ (got ++ wire.pending ++ owed) =
      (ch.sent.take ch.taken).flatMap data ++ (ch.sent.drop ch.taken).flatMap data := by
    rw [← List.flatMap_append, List.take_append_drop, ← h.sent, pending]
    conv_rhs => rw [← List.take_append_drop wire.taken wire.sent, h.taken]
    simp only [List.append_assoc]
  exact List.append_cancel_left hall

theorem left_of_next (h : Carries data wire ch owed got) (hm : ch.next? = some m) :
    got ++ wire.pending ++ owed = data m ++ (ch.sent.drop (ch.taken + 1)).flatMap data := by
  obtain ⟨hlt, hget⟩ := List.getElem?_eq_some_iff.1 hm
  rw [h.left, List.drop_eq_getElem_cons hlt, hget, List.flatMap_cons]

theorem pop (h : Carries data wire ch owed (data m)) (hm : ch.next? = some m) :
    Carries data wire ch.pop owed [] where
  sent := h.sent
  taken := by
    obtain ⟨hlt, hget⟩ := List.getElem?_eq_some_iff.1 hm
    rw [pop_sent, pop_taken, List.take_succ_eq_append_getElem hlt, hget, List.flatMap_append,
      List.append_nil, h.taken]
    simp
  taken_le := h.taken_le
  read_le := pop_taken_le hm

/-- Bytes that have come belong to a message. -/
theorem next_ne_none (h : Carries data wire ch owed got) (hne : got ++ wire.pending ≠ []) :
    ch.next? ≠ none := by
  intro hnone
  have hdrop : ch.sent.drop ch.taken = [] :=
    List.drop_eq_nil_of_le (List.getElem?_eq_none_iff.1 hnone)
  have hleft := h.left
  rw [hdrop, List.flatMap_nil] at hleft
  exact hne (List.append_eq_nil_iff.1 hleft).1

/-- When all messages have been received, all bytes have been read. -/
theorem pending_of_nil (h : Carries data wire ch owed got) (hnil : ch.pending = []) :
    wire.pending = [] := by
  have hleft := h.left
  rw [pending] at hnil
  rw [hnil, List.flatMap_nil] at hleft
  exact (List.append_eq_nil_iff.1 (List.append_eq_nil_iff.1 hleft).1).2

/-- What is read, up to its length, is the beginning of the next message. -/
theorem prefix_next (h : Carries data wire ch owed got) (hm : ch.next? = some m)
    (hbs : bs <+: wire.pending) (hle : (got ++ bs).length ≤ (data m).length) :
    got ++ bs <+: data m := by
  have hall : got ++ bs <+: data m ++ (ch.sent.drop (ch.taken + 1)).flatMap data := by
    rw [← h.left_of_next hm, List.append_assoc]
    exact (List.prefix_append_right_inj got).2 (hbs.trans (List.prefix_append _ _))
  exact List.prefix_of_prefix_length_le hall (List.prefix_append _ _) hle

/-- A part of a message has come if it has not all been read or is still owed. -/
theorem pending_ne_nil (h : Carries data wire ch owed got) (hm : ch.next? = some m)
    (hlt : got.length + owed.length < (data m).length) : wire.pending ≠ [] := by
  intro hnil
  have hlen := congrArg List.length (h.left_of_next hm)
  rw [hnil, List.append_nil, List.length_append, List.length_append] at hlen
  omega

end Carries

/-! ## Tables of channels -/

/-- What is owed on the channel to `j`, if `owed` lists what is still to be written and to whom. -/
def owedTo (owed : List (ℕ × List β)) (j : ℕ) : List β :=
  (owed.filter (fun d => d.1 = j)).flatMap Prod.snd

theorem owedTo_nil (j : ℕ) : owedTo ([] : List (ℕ × List β)) j = [] :=
  rfl

theorem owedTo_cons (i : ℕ) (bs : List β) (owed : List (ℕ × List β)) (j : ℕ) :
    owedTo ((i, bs) :: owed) j = (if i = j then bs else []) ++ owedTo owed j := by
  unfold owedTo
  by_cases hij : i = j <;> simp [hij]

theorem owedTo_cons_of_ne {i j : ℕ} (hij : j ≠ i) (bs : List β) (owed : List (ℕ × List β)) :
    owedTo ((i, bs) :: owed) j = owedTo owed j := by
  rw [owedTo_cons, if_neg (Ne.symm hij), List.nil_append]

theorem owedTo_concat (owed : List (ℕ × List β)) (i : ℕ) (bs : List β) (j : ℕ) :
    owedTo (owed ++ [(i, bs)]) j = owedTo owed j ++ if i = j then bs else [] := by
  unfold owedTo
  by_cases hij : i = j <;> simp [hij]

theorem owedTo_singleton_le (i : ℕ) (bs : List β) (j : ℕ) :
    (owedTo [(i, bs)] j).length ≤ bs.length := by
  rw [owedTo_cons, owedTo_nil, List.append_nil]
  split
  · exact le_refl _
  · exact Nat.zero_le _

theorem owedTo_drop_le (i : ℕ) (bs : List β) (n : ℕ) (owed : List (ℕ × List β)) (j : ℕ) :
    (owedTo ((i, bs.drop n) :: owed) j).length ≤ (owedTo ((i, bs) :: owed) j).length := by
  rw [owedTo_cons, owedTo_cons, List.length_append, List.length_append]
  refine Nat.add_le_add_right ?_ _
  split
  · rw [List.length_drop]
    exact Nat.sub_le _ _
  · exact le_refl _

/-- Every channel of a table is carried by the byte channel at its place. Sender `i` owes what
    `owed i` lists, and receiver `j` has read `got j i` of its next message. -/
def Carrying (data : α → List β) (wires : ℕ → ℕ → Channel β) (chans : ℕ → ℕ → Channel α)
    (owed : ℕ → List (ℕ × List β)) (got : ℕ → ℕ → List β) : Prop :=
  ∀ i j, (wires i j).Carries data (chans i j) (owedTo (owed i) j) (got j i)

namespace Carrying

variable {wires : ℕ → ℕ → Channel β} {chans : ℕ → ℕ → Channel α} {owed : ℕ → List (ℕ × List β)}
  {got : ℕ → ℕ → List β} {i j : ℕ} {m : α}

theorem push (h : Carrying data wires chans owed got) (i j : ℕ) (m : α) :
    Carrying data wires (updateAt chans i j ((chans i j).push m))
      (Function.update owed i (owed i ++ [(j, data m)])) got := by
  intro a b
  rw [updateAt_apply]
  by_cases ha : a = i
  · subst ha
    rw [Function.update_self, owedTo_concat]
    by_cases hb : b = j
    · subst hb
      rw [if_pos ⟨rfl, rfl⟩, if_pos rfl]
      exact (h a b).push m
    · rw [if_neg (fun hab => hb hab.2), if_neg (Ne.symm hb), List.append_nil]
      exact h a b
  · rw [if_neg (fun hab => ha hab.1), Function.update_of_ne ha]
    exact h a b

theorem write (h : Carrying data wires chans owed got) {bs bs' : List β}
    {rest : List (ℕ × List β)}
    (howed : ∀ b, owedTo (owed i) b = owedTo ((j, bs ++ bs') :: rest) b) :
    Carrying data (updateAt wires i j ((wires i j).pushAll bs)) chans
      (Function.update owed i ((j, bs') :: rest)) got := by
  intro a b
  rw [updateAt_apply]
  by_cases ha : a = i
  · subst ha
    have hab := h a b
    rw [howed, owedTo_cons] at hab
    rw [Function.update_self, owedTo_cons]
    by_cases hb : b = j
    · subst hb
      rw [if_pos rfl, List.append_assoc] at hab
      rw [if_pos ⟨rfl, rfl⟩, if_pos rfl]
      exact hab.write
    · rw [if_neg (Ne.symm hb)] at hab
      rw [if_neg (fun h => hb h.2), if_neg (Ne.symm hb)]
      exact hab
  · rw [if_neg (fun hab => ha hab.1), Function.update_of_ne ha]
    exact h a b

theorem read (h : Carrying data wires chans owed got) {bs : List β}
    (hbs : bs <+: (wires i j).pending) :
    Carrying data (updateAt wires i j ((wires i j).advance bs.length)) chans owed
      (Function.update got j (Function.update (got j) i (got j i ++ bs))) := by
  intro a b
  rw [updateAt_apply]
  by_cases hb : b = j
  · subst hb
    rw [Function.update_self]
    by_cases ha : a = i
    · subst ha
      rw [if_pos ⟨rfl, rfl⟩, Function.update_self]
      exact (h a b).read hbs
    · rw [if_neg (fun hab => ha hab.1), Function.update_of_ne ha]
      exact h a b
  · rw [if_neg (fun hab => hb hab.2), Function.update_of_ne hb]
    exact h a b

theorem pop (h : Carrying data wires chans owed got) (hm : (chans i j).next? = some m)
    (hgot : got j i = data m) :
    Carrying data wires (updateAt chans i j (chans i j).pop) owed
      (Function.update got j (Function.update (got j) i [])) := by
  intro a b
  rw [updateAt_apply]
  by_cases hb : b = j
  · subst hb
    rw [Function.update_self]
    by_cases ha : a = i
    · subst ha
      rw [if_pos ⟨rfl, rfl⟩, Function.update_self]
      have hab := h a b
      rw [hgot] at hab
      exact hab.pop hm
    · rw [if_neg (fun hab => ha hab.1), Function.update_of_ne ha]
      exact h a b
  · rw [if_neg (fun hab => hb hab.2), Function.update_of_ne hb]
    exact h a b

/-- Receiver `j` reads what is left of the next message from `i`. -/
theorem receive (h : Carrying data wires chans owed got) {bs : List β}
    (hbs : bs <+: (wires i j).pending) (hne : bs ≠ []) {size : ℕ}
    (hsize : ∀ m, (chans i j).next? = some m → (data m).length = size)
    (hlen : (got j i ++ bs).length = size) :
    ∃ m, (chans i j).next? = some m ∧ data m = got j i ++ bs ∧
      Carrying data (updateAt wires i j ((wires i j).advance bs.length))
        (updateAt chans i j (chans i j).pop) owed
        (Function.update got j (Function.update (got j) i [])) := by
  have hcome : got j i ++ (wires i j).pending ≠ [] := by
    intro hnil
    rw [(List.append_eq_nil_iff.1 hnil).2, List.prefix_nil] at hbs
    exact hne hbs
  obtain ⟨m, hm⟩ := Option.ne_none_iff_exists'.1 ((h i j).next_ne_none hcome)
  have hbegins := (h i j).prefix_next hm hbs (hlen.trans (hsize m hm).symm).le
  have hdata : data m = got j i ++ bs :=
    (hbegins.eq_of_length (hlen.trans (hsize m hm).symm)).symm
  refine ⟨m, hm, hdata, ?_⟩
  have hread := h.read hbs
  have hpop := hread.pop hm (by rw [Function.update_self, Function.update_self, hdata])
  rwa [Function.update_self, Function.update_idem, Function.update_idem] at hpop

end Carrying

end Channel
