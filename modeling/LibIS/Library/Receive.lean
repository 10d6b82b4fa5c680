import LibIS.Library.Bytes
import LibIS.Library.Prog

set_option autoImplicit false

/-! # Receive programs

The receiving half of an untagged, ordered exchange: a program that asks its channel for byte counts
and may throw. The same program is run on any kind of channel (`Receive.run`), in particular on a
queue of messages and on a byte stream, which forgets where one message ends.

`Reads p ms a` is the one fact to prove about a receiver: run on the messages `ms` it asks for
exactly the length of each, in order, and returns `a`. It composes along `>>=`, and it fixes the run
on both kinds of channel with nothing left over (`Reads.run_messages`, `Reads.run_stream`). -/

open ByteCodec

/-- What a receiver can do: receive `size` bytes, or throw. -/
inductive RecvOp (ε : Type) where
  | recv (size : ℕ)
  | throw (e : ε)

/-- A receive is answered by the buffer it filled, a throw by nothing. -/
abbrev RecvOp.Resp {ε : Type} : RecvOp ε → Type
  | .recv _ => Bytes
  | .throw _ => Empty

/-- A program that receives from one peer. -/
abbrev RecvProg (ε α : Type) := Prog (RecvOp.Resp (ε := ε)) α

namespace Receive

variable {ε α β χ : Type}

/-- Receive `size` bytes. -/
def recv (size : ℕ) : RecvProg ε Bytes :=
  .vis (.recv size) .ret

/-- Throw `e`. -/
def throw (e : ε) : RecvProg ε α :=
  .vis (.throw e) Empty.elim

/-- Continue with a result, or throw. -/
def ofExcept : Except ε α → RecvProg ε α
  | .ok a => .ret a
  | .error e => throw e

@[simp] theorem recv_bind (n : ℕ) (f : Bytes → RecvProg ε β) :
    recv n >>= f = .vis (.recv n) f := rfl

@[simp] theorem ofExcept_ok (a : α) : (ofExcept (.ok a) : RecvProg ε α) = .ret a := rfl

@[simp] theorem ofExcept_error (e : ε) : (ofExcept (.error e) : RecvProg ε α) = throw e := rfl

/-! ## Running a receiver on a channel -/

/-- Run a receiver on a channel state; `take n c` is a receive of `n` bytes, `none` when it blocks.
    Returns the byte counts asked for, the channel left over, and the outcome (`none`: blocked). -/
def run (take : ℕ → χ → Option (Bytes × χ)) :
    RecvProg ε α → χ → List ℕ × χ × Option (Except ε α)
  | .ret a, c => ([], c, some (.ok a))
  | .vis (.throw e) _, c => ([], c, some (.error e))
  | .vis (.recv n) k, c =>
      match take n c with
      | none => ([n], c, none)
      | some (b, c') =>
          let r := run take (k b) c'
          (n :: r.1, r.2)

theorem run_recv_some {take : ℕ → χ → Option (Bytes × χ)} {n : ℕ} {k : Bytes → RecvProg ε α}
    {c c' : χ} {b : Bytes} (h : take n c = some (b, c')) :
    run take (.vis (.recv n) k) c = (n :: (run take (k b) c').1, (run take (k b) c').2) := by
  rw [run.eq_def]
  simp only [h]

/-- A receive on a queue of messages consumes one message: it fills the start of the zero-filled
    buffer, and bytes past the buffer are lost. -/
def recvMessage (n : ℕ) : List Bytes → Option (Bytes × List Bytes)
  | [] => none
  | m :: ms => some (m.take n ++ zeros (n - m.length), ms)

/-- A receive on a byte stream waits for `n` bytes and takes them. -/
def recvBytes (n : ℕ) (s : Bytes) : Option (Bytes × Bytes) :=
  if n ≤ s.length then some (s.take n, s.drop n) else none

/-- A receive on a byte stream that may come back short: the next of the given cuts says how many of
    the bytes asked for it moves, at least one unless none was asked for. A cut that asks for more
    than there is does not happen. -/
def recvSome (n : ℕ) : List ℕ × Bytes → Option (Bytes × (List ℕ × Bytes))
  | ([], _) => none
  | (k :: ks, s) =>
      if k ≤ n ∧ k ≤ s.length ∧ (0 < k ∨ n = 0) then
        some (s.take k ++ zeros (n - k), (ks, s.drop k))
      else
        none

theorem recvSome_eq_some {n k : ℕ} {ks ks' : List ℕ} {s s' b : Bytes}
    (h : recvSome n (k :: ks, s) = some (b, (ks', s'))) :
    k ≤ n ∧ k ≤ s.length ∧ b = s.take k ++ zeros (n - k) ∧ ks' = ks ∧ s' = s.drop k := by
  simp only [recvSome] at h
  by_cases hcut : k ≤ n ∧ k ≤ s.length ∧ (0 < k ∨ n = 0)
  · rw [if_pos hcut] at h
    simp only [Option.some.injEq, Prod.mk.injEq] at h
    exact ⟨hcut.1, hcut.2.1, h.1.symm, h.2.1.symm, h.2.2.symm⟩
  · rw [if_neg hcut] at h
    exact absurd h (by simp)

/-- On the messages `ms`, the receiver asks for exactly the length of each, in order, and returns
    the given value. -/
inductive Reads : RecvProg ε α → List Bytes → α → Prop where
  | ret (a : α) : Reads (.ret a) [] a
  | recv {n : ℕ} {k : Bytes → RecvProg ε α} {m : Bytes} {ms : List Bytes} {a : α} :
      m.length = n → Reads (k m) ms a → Reads (.vis (.recv n) k) (m :: ms) a

theorem Reads.bind {p : RecvProg ε α} {f : α → RecvProg ε β} {ms ms' : List Bytes} {a : α} {b : β}
    (hp : Reads p ms a) (hf : Reads (f a) ms' b) : Reads (p >>= f) (ms ++ ms') b := by
  induction hp with
  | ret a => simpa using hf
  | recv hlen _ ih => exact .recv hlen (ih hf)

theorem Reads.recv_bind {n : ℕ} {f : Bytes → RecvProg ε β} {m : Bytes} {ms : List Bytes} {b : β}
    (hlen : m.length = n) (hf : Reads (f m) ms b) : Reads (Receive.recv n >>= f) (m :: ms) b :=
  .recv hlen hf

theorem Reads.recv_inv {n : ℕ} {k : Bytes → RecvProg ε α} {m : Bytes} {ms : List Bytes} {a : α}
    (h : Reads (.vis (.recv n) k) (m :: ms) a) : m.length = n ∧ Reads (k m) ms a := by
  cases h with
  | recv hlen hk => exact ⟨hlen, hk⟩

/-- A receiver that has nothing left to read has returned. -/
theorem Reads.nil_inv {p : RecvProg ε α} {a : α} (h : Reads p [] a) : p = .ret a := by
  cases h
  rfl

/-- On a message queue the receiver consumes its messages and nothing of what comes after. -/
theorem Reads.run_messages {p : RecvProg ε α} {ms : List Bytes} {a : α} (h : Reads p ms a)
    (later : List Bytes) :
    run recvMessage p (ms ++ later) = (ms.map List.length, later, some (.ok a)) := by
  induction h with
  | ret a => rfl
  | @recv n k m ms a hlen _ ih =>
      have htake : recvMessage n (m :: ms ++ later) = some (m, ms ++ later) := by
        simp [recvMessage, hlen, List.take_of_length_le (le_of_eq hlen)]
      rw [run_recv_some htake, ih, List.map_cons, hlen]

/-- On a byte stream the receiver consumes exactly the bytes of its messages. -/
theorem Reads.run_stream {p : RecvProg ε α} {ms : List Bytes} {a : α} (h : Reads p ms a)
    (later : Bytes) :
    run recvBytes p (ms.flatten ++ later) = (ms.map List.length, later, some (.ok a)) := by
  induction h with
  | ret a => rfl
  | @recv n k m ms a hlen _ ih =>
      have htake : recvBytes n ((m :: ms).flatten ++ later) = some (m, ms.flatten ++ later) := by
        simp [recvBytes, ← hlen]
      rw [run_recv_some htake, ih, List.map_cons, hlen]

end Receive
