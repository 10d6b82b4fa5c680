import LibIS.Library.Framing
import LibIS.SocketRounds.System

set_option autoImplicit false

/-! # Rounds of queries over sockets: amid a transfer

Between two system calls a rank is amid what its program does message by message. What it has sent
may still be to be written (`flush`), and of what it receives it may have read a part (`simRest`,
`clientRest`). -/

open ByteCodec Prog Channel

namespace LibIS

namespace SocketRounds

/-! ## What is still to be written -/

section Flush

variable {Op : Type} {Resp : Op → Type} {α : Type}

/-- Write all that is owed, and go on with `p`. -/
def flush (owed : List (ℕ × Bytes)) (p : Prog (SocketOp.Resp Resp) α) :
    Prog (SocketOp.Resp Resp) α :=
  owed.foldr (fun d p => sendRest d.1 d.2 >>= fun _ => p) p

theorem flush_concat (owed : List (ℕ × Bytes)) (rank : ℕ) (data : Bytes)
    (p : Prog (SocketOp.Resp Resp) α) :
    flush (owed ++ [(rank, data)]) p = flush owed (sendRest rank data >>= fun _ => p) := by
  unfold flush
  rw [List.foldr_append]
  rfl

theorem flush_of_nil {owed : List (ℕ × Bytes)} (h : ∀ j, owedTo owed j = [])
    (p : Prog (SocketOp.Resp Resp) α) : flush owed p = p := by
  induction owed with
  | nil => rfl
  | cons d owed ih =>
      obtain ⟨rank, data⟩ := d
      have hcons : ∀ j, (if rank = j then data else []) = [] ∧ owedTo owed j = [] := by
        intro j
        rw [← List.append_eq_nil_iff, ← owedTo_cons]
        exact h j
      have hdata : data = [] := by simpa using (hcons rank).1
      subst hdata
      show sendRest rank [] >>= (fun _ => flush owed p) = p
      rw [sendRest_nil, ret_bind]
      exact ih (fun j => (hcons j).2)

/-- How many bytes are owed. -/
def owedLength (owed : List (ℕ × Bytes)) : ℕ :=
  (owed.map (fun d => d.2.length)).sum

theorem owedLength_cons (rank : ℕ) (data : Bytes) (owed : List (ℕ × Bytes)) :
    owedLength ((rank, data) :: owed) = data.length + owedLength owed := by
  simp [owedLength]

theorem owedLength_drop_lt (rank : ℕ) {data : Bytes} (n : Count data.length)
    (owed : List (ℕ × Bytes)) :
    owedLength ((rank, data.drop n.1) :: owed) < owedLength ((rank, data) :: owed) := by
  have hpos := n.2.1
  have hle := n.2.2.1
  rw [owedLength_cons, owedLength_cons, List.length_drop]
  omega

/-- Either nothing is owed, or the first of it is written next. -/
theorem flush_cases (owed : List (ℕ × Bytes)) (p : Prog (SocketOp.Resp Resp) α) :
    (∀ j, owedTo owed j = []) ∨
      ∃ rank data rest, data ≠ [] ∧ owedLength owed = owedLength ((rank, data) :: rest) ∧
        (∀ j, owedTo owed j = owedTo ((rank, data) :: rest) j) ∧
        flush owed p = vis (.send rank data)
          (fun k : Count data.length => flush ((rank, data.drop k.1) :: rest) p) := by
  induction owed with
  | nil => exact .inl (fun _ => rfl)
  | cons d owed ih =>
      obtain ⟨rank, data⟩ := d
      by_cases hdata : data = []
      · -- an empty message takes no system call
        subst hdata
        have howed : ∀ j, owedTo ((rank, []) :: owed) j = owedTo owed j := by
          intro j
          rw [owedTo_cons, ite_self, List.nil_append]
        have hflush : flush ((rank, []) :: owed) p = flush owed p := by
          show sendRest rank [] >>= (fun _ => flush owed p) = flush owed p
          rw [sendRest_nil, ret_bind]
        rw [hflush]
        rcases ih with hnil | ⟨rank', data', rest, hne, hlength, hrest, hp⟩
        · exact .inl (fun j => (howed j).trans (hnil j))
        · refine .inr ⟨rank', data', rest, hne, ?_, fun j => (howed j).trans (hrest j), hp⟩
          rw [owedLength_cons, List.length_nil, Nat.zero_add, hlength]
      · refine .inr ⟨rank, data, owed, hdata, rfl, fun _ => rfl, ?_⟩
        show sendRest rank data >>= (fun _ => flush owed p) = _
        rw [sendRest_of_ne rank hdata]
        rfl

end Flush

/-! ## What has been read -/

section Receive

variable {Op : Type} {Resp : Op → Type} {α : Type} (rank : ℕ) {size : ℕ} {got : Bytes}

/-- A part of a message is read next, as long as some is missing. -/
theorem recvRest_bind (h : got.length < size) (f : Bytes → Prog (SocketOp.Resp Resp) α) :
    recvRest rank (size - got.length) got >>= f =
      vis (.recv rank (size - got.length)) (fun bs : Piece (size - got.length) =>
        recvRest rank (size - (got ++ bs.1).length) (got ++ bs.1) >>= f) := by
  rw [recvRest_of_pos rank (Nat.sub_pos_of_lt h), vis_bind]
  congr 1
  funext bs
  rw [Nat.sub_sub, List.length_append]

theorem recvRest_full (h : got.length = size) (f : Bytes → Prog (SocketOp.Resp Resp) α) :
    recvRest rank (size - got.length) got >>= f = f got := by
  rw [h, Nat.sub_self, recvRest_zero, ret_bind]

end Receive

/-- The operations of a rank over sockets. -/
structure Transport (Op : Type) (Resp : Op → Type) where
  /-- which rank an operation receives from, and how many bytes -/
  source : Op → Option (ℕ × ℕ)
  /-- what is left of an operation, when `got i` has been read of the message from rank `i` -/
  resume : (o : Op) → (ℕ → Bytes) → Prog (SocketOp.Resp Resp) (Resp o)

def simTransport : Transport (SimOp Unit) SimOp.Resp where
  source
    | .recv _ _ size rank => some (rank, size)
    | _ => none
  resume
    | .send _ _ data rank, _ => sendRest rank data
    | .recv _ _ size rank, got => recvRest rank (size - (got rank).length) (got rank)
    | o, _ => op (SocketOp.call o)

def clientTransport : Transport (ClientOp Unit) ClientOp.Resp where
  source
    | .recv _ _ size rank => some (rank, size)
    | _ => none
  resume
    | .send _ _ data rank, _ => sendRest rank data
    | .recv _ _ size rank, got => recvRest rank (size - (got rank).length) (got rank)
    | o, _ => op (SocketOp.call o)

section Rest

variable {Op : Type} {Resp : Op → Type} {α : Type} (T : Transport Op Resp)

/-- What is left of a program, when `got i` has been read of the message from rank `i`. -/
def rest : Prog Resp α → (ℕ → Bytes) → Prog (SocketOp.Resp Resp) α
  | ret a, _ => ret a
  | vis o k, got =>
      T.resume o got >>= fun r => (k r).interp (fun o => T.resume o (fun _ => []))

/-- A rank that has `q` left to do message by message and `p` system call by system call. -/
structure Amid (q : Prog Resp α) (owed : List (ℕ × Bytes)) (got : ℕ → Bytes)
    (p : Prog (SocketOp.Resp Resp) α) : Prop where
  control : p = flush owed (rest T q got)
  /-- what it has read is of the message that is due, and not all of it -/
  reading : ∀ i, got i ≠ [] → ∃ o k size, q = vis o k ∧ T.source o = some (i, size) ∧
    (got i).length < size

variable {T} {owed : List (ℕ × Bytes)} {got : ℕ → Bytes} {p : Prog (SocketOp.Resp Resp) α}

theorem Amid.opening {q : Prog Resp α}
    (h : p = flush owed (q.interp (fun o => T.resume o (fun _ => [])))) :
    Amid T q owed (fun _ => []) p where
  control := by
    rw [h]
    cases q <;> rfl
  reading i hne := absurd rfl hne

/-- A rank that is not receiving has read nothing. -/
theorem Amid.unread {q : Prog Resp α} (h : Amid T q owed got p)
    (hq : ∀ o k, q = vis o k → T.source o = none) : got = fun _ => [] := by
  funext i
  by_contra hne
  obtain ⟨o, k, size, hvis, hsource, -⟩ := h.reading i hne
  rw [hq o k hvis] at hsource
  exact absurd hsource (by simp)

/-- A rank that receives has read nothing from others, and not all of what it receives. -/
theorem Amid.unread_of_recv {o : Op} {k : Resp o → Prog Resp α} (h : Amid T (vis o k) owed got p)
    {rank size : ℕ} (hsource : T.source o = some (rank, size)) :
    (∀ i, i ≠ rank → got i = []) ∧ (0 < size → (got rank).length < size) := by
  have hreading : ∀ i, got i ≠ [] → i = rank ∧ (got i).length < size := by
    intro i hne
    obtain ⟨o', k', size', hvis, hsource', hlt⟩ := h.reading i hne
    cases hvis
    rw [hsource] at hsource'
    cases hsource'
    exact ⟨rfl, hlt⟩
  constructor
  · intro i hi
    by_contra hne
    exact hi (hreading i hne).1
  · intro hpos
    by_cases hnil : got rank = []
    · rw [hnil]
      exact hpos
    · exact (hreading rank hnil).2

/-- When all of a message has been read, nothing is read of the next. -/
theorem Amid.read_all {o : Op} {k : Resp o → Prog Resp α} (h : Amid T (vis o k) owed got p)
    {rank size : ℕ} (hsource : T.source o = some (rank, size)) :
    Function.update got rank [] = fun _ => [] := by
  funext i
  by_cases hi : i = rank
  · rw [hi, Function.update_self]
  · rw [Function.update_of_ne hi, (h.unread_of_recv hsource).1 i hi]

theorem Amid.read_part {o : Op} {k : Resp o → Prog Resp α} (h : Amid T (vis o k) owed got p)
    {rank size : ℕ} (hsource : T.source o = some (rank, size)) {bs : Bytes}
    (hlt : (got rank ++ bs).length < size) {p' : Prog (SocketOp.Resp Resp) α}
    (hcontrol : p' = flush owed (rest T (vis o k) (Function.update got rank (got rank ++ bs)))) :
    Amid T (vis o k) owed (Function.update got rank (got rank ++ bs)) p' where
  control := hcontrol
  reading i hi := by
    by_cases hrank : i = rank
    · subst hrank
      rw [Function.update_self]
      exact ⟨o, k, size, rfl, hsource, hlt⟩
    · rw [Function.update_of_ne hrank] at hi
      exact absurd ((h.unread_of_recv hsource).1 i hrank) hi

end Rest

/-! ## What is left to transfer -/

section Left

variable {Op : Type} {Resp : Op → Type} {α : Type} (T : Transport Op Resp)

/-- How many bytes are missing from what a program receives first. -/
def Transport.missing : Prog Resp α → (ℕ → Bytes) → ℕ
  | ret _, _ => 0
  | vis o _, got => (T.source o).elim 0 (fun d => d.2 - (got d.1).length)

/-- How many bytes a rank transfers at least, before it goes on message by message. -/
def Transport.left (q : Prog Resp α) (owed : List (ℕ × Bytes)) (got : ℕ → Bytes) : ℕ :=
  owedLength owed + T.missing q got

variable {T} {owed : List (ℕ × Bytes)} {got : ℕ → Bytes}

theorem Transport.left_write_lt (q : Prog Resp α) {rank : ℕ} {data : Bytes}
    {more : List (ℕ × Bytes)} (howed : owedLength owed = owedLength ((rank, data) :: more))
    (n : Count data.length) :
    T.left q ((rank, data.drop n.1) :: more) got < T.left q owed got := by
  unfold Transport.left
  rw [howed]
  exact Nat.add_lt_add_right (owedLength_drop_lt rank n more) _

theorem Transport.left_read_lt {o : Op} {k : Resp o → Prog Resp α} {rank size : ℕ}
    (hsource : T.source o = some (rank, size)) {bs : Bytes} (hne : bs ≠ [])
    (hlt : (got rank ++ bs).length < size) :
    T.left (vis o k) owed (Function.update got rank (got rank ++ bs)) <
      T.left (vis o k) owed got := by
  have hpos := List.length_pos_of_ne_nil hne
  unfold Transport.left Transport.missing
  simp only [hsource, Option.elim_some, Function.update_self]
  rw [List.length_append] at hlt ⊢
  omega

end Left

theorem simOver_eq : simOver = fun o => simTransport.resume o (fun _ => []) := by
  funext o
  cases o <;> rfl

theorem clientOver_eq : clientOver = fun o => clientTransport.resume o (fun _ => []) := by
  funext o
  cases o <;> rfl

end SocketRounds

end LibIS
