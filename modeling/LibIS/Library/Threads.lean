import LibIS.Library.Receive
import Mathlib.Logic.Function.Basic
import Mathlib.Tactic.Common

set_option autoImplicit false

/-! # Interleaved threads

A system of threads that run programs against a shared state, one operation at a time, in any order.
A thread that returns a label goes on with the code of the label, so loops are labels.

Properties are proved thread by thread. A `Proof` fixes an invariant of the shared state, for every
thread what the others may do to the state (`rely`), what must hold when an operation is due
(`ready`), and what holds at each label (`post`). `Proof.wp` is the weakest precondition of a
program under these: every operation finds its `ready`, keeps the invariant and does to the others
only what they rely on. If the code of each label is safe where the label's `post` holds, then the
invariant and the preconditions hold along every run (`Proof.sound`). -/

open Prog

/-- Threads `ι` over a shared state `σ`. -/
structure ThreadSystem (ι σ : Type) where
  Op : ι → Type
  Resp : (i : ι) → Op i → Type
  Label : ι → Type
  code : (i : ι) → Label i → Prog (Resp i) (Label i)
  /-- `perform i o s r s'`: thread `i` may perform `o` in the state `s` with the answer `r`, which
      leaves `s'`. An operation that has no such answer blocks. -/
  perform : (i : ι) → (o : Op i) → σ → Resp i o → σ → Prop

namespace ThreadSystem

variable {ι σ : Type} (S : ThreadSystem ι σ)

/-- The shared state and what is left of each thread's program. -/
structure Config where
  shared : σ
  control : (i : ι) → Prog (S.Resp i) (S.Label i)

/-- Each thread about to run the code of a label. -/
def start (s : σ) (labels : (i : ι) → S.Label i) : S.Config :=
  ⟨s, fun i => .ret (labels i)⟩

/-- One step of some thread. -/
inductive Step [DecidableEq ι] : S.Config → S.Config → Prop
  | act (c : S.Config) (i : ι) {o : S.Op i} {k : S.Resp i o → Prog (S.Resp i) (S.Label i)}
      (r : S.Resp i o) (s' : σ) (hctl : c.control i = .vis o k)
      (hperform : S.perform i o c.shared r s') :
      Step c ⟨s', Function.update c.control i (k r)⟩
  | goto (c : S.Config) (i : ι) {l : S.Label i} (hctl : c.control i = .ret l) :
      Step c ⟨c.shared, Function.update c.control i (S.code i l)⟩

/-- The configurations that runs from `c₀` reach. -/
inductive Reachable [DecidableEq ι] (c₀ : S.Config) : S.Config → Prop
  | start : Reachable c₀ c₀
  | step {c c' : S.Config} (h : Reachable c₀ c) (hstep : S.Step c c') : Reachable c₀ c'

/-- The system whose threads perform an operation only where `cond` holds of it, of the state before
    it and of its answer. Its runs are the runs of `S` whose steps all meet the condition. -/
def guarded (cond : (i : ι) → (o : S.Op i) → σ → S.Resp i o → Prop) : ThreadSystem ι σ :=
  { S with perform := fun i o s r s' => S.perform i o s r s' ∧ cond i o s r }

/-! ## Undisturbed runs -/

/-- Undisturbed, thread `i` may run the program from `s` to `s'`, where it returns `a`. -/
inductive Runs {α : Type} (i : ι) : Prog (S.Resp i) α → σ → α → σ → Prop
  | ret (a : α) (s : σ) : Runs i (.ret a) s a s
  | vis {o : S.Op i} {k : S.Resp i o → Prog (S.Resp i) α} {s s' s'' : σ} {r : S.Resp i o} {a : α}
      (hperform : S.perform i o s r s') (h : Runs i (k r) s' a s'') : Runs i (.vis o k) s a s''

section Runs

variable {S} {α β : Type} {i : ι}

theorem Runs.op {o : S.Op i} {s s' : σ} {r : S.Resp i o} (hperform : S.perform i o s r s') :
    S.Runs i (Prog.op o) s r s' :=
  .vis hperform (.ret r s')

theorem Runs.bind {p : Prog (S.Resp i) α} {f : α → Prog (S.Resp i) β} {s s' s'' : σ} {a : α} {b : β}
    (hp : S.Runs i p s a s') (hf : S.Runs i (f a) s' b s'') : S.Runs i (p >>= f) s b s'' := by
  induction hp with
  | ret a s => exact hf
  | vis hperform _ ih => exact .vis hperform (ih hf)

/-- A run against answers that the thread may get. -/
theorem Runs.of_run {answer : (o : S.Op i) → σ → Option (S.Resp i o × σ)}
    (hanswer : ∀ o s r s', answer o s = some (r, s') → S.perform i o s r s')
    {p : Prog (S.Resp i) α} {s s' : σ} {a : α} (hrun : p.run answer s = (s', some a)) :
    S.Runs i p s a s' := by
  induction p generalizing s with
  | ret b =>
      obtain ⟨rfl, hb⟩ := Prod.mk.inj hrun
      obtain rfl := Option.some.inj hb
      exact .ret _ _
  | vis o k ih =>
      cases hans : answer o s with
      | none =>
          rw [run_vis_none hans] at hrun
          exact absurd hrun (by simp)
      | some x =>
          obtain ⟨r, s₁⟩ := x
          rw [run_vis hans] at hrun
          exact .vis (hanswer o s r s₁ hans) (ih r hrun)

variable [DecidableEq ι]

/-- A program that is run to its end is a part of a run. -/
theorem Reachable.runs {c₀ c : S.Config} (h : S.Reachable c₀ c) {p : Prog (S.Resp i) (S.Label i)}
    (hctl : c.control i = p) {s' : σ} {l : S.Label i} (hruns : S.Runs i p c.shared l s') :
    S.Reachable c₀ ⟨s', Function.update c.control i (.ret l)⟩ := by
  generalize hs : c.shared = s at hruns
  induction hruns generalizing c with
  | ret a s =>
      rw [← hctl, Function.update_eq_self, ← hs]
      exact h
  | vis hperform _ ih =>
      subst hs
      have hstep := h.step (.act c i _ _ hctl hperform)
      have hreach := ih hstep (Function.update_self ..) rfl
      rwa [Function.update_idem] at hreach

theorem Reachable.turn {c₀ c : S.Config} (h : S.Reachable c₀ c) {l l' : S.Label i}
    (hctl : c.control i = .ret l) {s' : σ} (hruns : S.Runs i (S.code i l) c.shared l' s') :
    S.Reachable c₀ ⟨s', Function.update c.control i (.ret l')⟩ := by
  have hreach := (h.step (.goto c i hctl)).runs (Function.update_self ..) hruns
  rwa [Function.update_idem] at hreach

/-- A thread runs the code of its label against answers that it may get. -/
theorem Reachable.round {c₀ c : S.Config} (h : S.Reachable c₀ c) (i : ι)
    {answer : (o : S.Op i) → σ → Option (S.Resp i o × σ)}
    (hanswer : ∀ o s r s', answer o s = some (r, s') → S.perform i o s r s')
    {l l' : S.Label i} (hctl : c.control i = .ret l) {s' : σ}
    (hrun : (S.code i l).run answer c.shared = (s', some l')) :
    S.Reachable c₀ ⟨s', Function.update c.control i (.ret l')⟩ :=
  h.turn hctl (Runs.of_run hanswer hrun)

end Runs

/-! ## Schedules

A schedule names the thread that is next and how many operations it may perform. A thread whose
operation is not answered leaves its turn. -/

section Schedule

variable [DecidableEq ι]

/-- One turn of a schedule. At a label the thread goes on with the label's code. -/
def turn (answer : (i : ι) → (o : S.Op i) → σ → Option (S.Resp i o × σ)) (c : S.Config)
    (t : ι × ℕ) : S.Config :=
  let p := match c.control t.1 with
    | .ret l => S.code t.1 l
    | .vis o k => .vis o k
  let q := p.advance (answer t.1) t.2 c.shared
  ⟨q.2, Function.update c.control t.1 q.1⟩

/-- An answer that one thread gives itself and the others get when it is there. -/
theorem answer_cast {ρ : Type} {p : Prop} [Decidable p] {own r : ρ} {heard : Option ρ} {s₁ s₂ s' : σ}
    (h : (if p then some (own, s₁) else heard.map (fun r => (r, s₂))) = some (r, s')) :
    if p then r = own ∧ s' = s₁ else heard = some r ∧ s' = s₂ := by
  by_cases hp : p
  · rw [if_pos hp] at h ⊢
    obtain ⟨rfl, rfl⟩ := Prod.mk.inj (Option.some.inj h)
    exact ⟨rfl, rfl⟩
  · rw [if_neg hp] at h ⊢
    obtain ⟨r', hr, h⟩ := Option.map_eq_some_iff.1 h
    obtain ⟨rfl, rfl⟩ := Prod.mk.inj h
    exact ⟨hr, rfl⟩

variable {S} {answer : (i : ι) → (o : S.Op i) → σ → Option (S.Resp i o × σ)}
  (hanswer : ∀ i o s r s', answer i o s = some (r, s') → S.perform i o s r s') {c₀ c : S.Config}
include hanswer

theorem Reachable.advance (h : S.Reachable c₀ c) {i : ι} {p : Prog (S.Resp i) (S.Label i)}
    (hctl : c.control i = p) (n : ℕ) :
    S.Reachable c₀ ⟨(p.advance (answer i) n c.shared).2,
      Function.update c.control i (p.advance (answer i) n c.shared).1⟩ := by
  have hstop : S.Reachable c₀ ⟨c.shared, Function.update c.control i p⟩ := by
    rwa [← hctl, Function.update_eq_self]
  induction n generalizing c p with
  | zero => exact hstop
  | succ n ih =>
      cases p with
      | ret l => exact hstop
      | vis o k =>
          rw [Prog.advance]
          cases hans : answer i o c.shared with
          | none => exact hstop
          | some x =>
              have hstep := h.step (.act c i x.1 x.2 hctl (hanswer i o c.shared x.1 x.2 hans))
              have hreach := ih hstep (p := k x.1) (Function.update_self ..)
                (by rwa [Function.update_idem])
              rwa [Function.update_idem] at hreach

theorem Reachable.turns (h : S.Reachable c₀ c) (schedule : List (ι × ℕ)) :
    S.Reachable c₀ (schedule.foldl (S.turn answer) c) := by
  induction schedule generalizing c with
  | nil => exact h
  | cons t schedule ih =>
      refine ih ?_
      rw [ThreadSystem.turn]
      cases hctl : c.control t.1 with
      | ret l =>
          have hreach := (h.step (.goto c t.1 hctl)).advance hanswer (Function.update_self ..) t.2
          rwa [Function.update_idem] at hreach
      | vis o k => exact h.advance hanswer hctl t.2

end Schedule

/-- What a thread-by-thread proof fixes (see the head of this file). -/
structure Proof where
  inv : σ → Prop
  rely : ι → σ → σ → Prop
  ready : (i : ι) → S.Op i → σ → Prop
  post : (i : ι) → S.Label i → σ → Prop
  rely_refl : ∀ i s, rely i s s
  rely_trans : ∀ i s₁ s₂ s₃, rely i s₁ s₂ → rely i s₂ s₃ → rely i s₁ s₃

namespace Proof

variable {S} (P : S.Proof) {α β : Type}

/-- A step from `s` to `s'` that thread `i` may make: it keeps the invariant, and every other thread
    may rely on it. -/
def Allowed (i : ι) (s s' : σ) : Prop :=
  P.inv s' ∧ ∀ j, j ≠ i → P.rely j s s'

/-- The weakest precondition of a program of thread `i`. Before each operation the other threads may
    have done anything they are relied on to do. -/
def wp (i : ι) : Prog (S.Resp i) α → (α → σ → Prop) → σ → Prop
  | .ret a, Q, s => Q a s
  | .vis o k, Q, s => ∀ s', P.rely i s s' → P.inv s' →
      P.ready i o s' ∧
        ∀ r s'', S.perform i o s' r s'' → P.Allowed i s' s'' ∧ wp i (k r) Q s''

/-- Starting in `pre`, the program is safe and ends in `Q`. -/
def Triple (i : ι) (pre : σ → Prop) (p : Prog (S.Resp i) α) (Q : α → σ → Prop) : Prop :=
  ∀ s, P.inv s → pre s → P.wp i p Q s

/-- The other threads do not disturb `A`. -/
def Stable (i : ι) (A : σ → Prop) : Prop :=
  ∀ s s', A s → P.rely i s s' → P.inv s' → A s'

theorem wp_ret {i : ι} {a : α} {Q : α → σ → Prop} {s : σ} : P.wp i (.ret a) Q s ↔ Q a s :=
  Iff.rfl

theorem wp_vis {i : ι} {o : S.Op i} {k : S.Resp i o → Prog (S.Resp i) α} {Q : α → σ → Prop}
    {s : σ} : P.wp i (.vis o k) Q s ↔ ∀ s', P.rely i s s' → P.inv s' → P.ready i o s' ∧
      ∀ r s'', S.perform i o s' r s'' → P.Allowed i s' s'' ∧ P.wp i (k r) Q s'' :=
  Iff.rfl

theorem triple_iff {i : ι} {pre : σ → Prop} {p : Prog (S.Resp i) α} {Q : α → σ → Prop} :
    P.Triple i pre p Q ↔ ∀ s, P.inv s → pre s → P.wp i p Q s :=
  Iff.rfl

/-! ## Rules -/

theorem wp_mono {i : ι} {p : Prog (S.Resp i) α} {Q Q' : α → σ → Prop} {s : σ} (hs : P.inv s)
    (hQ : ∀ a s, P.inv s → Q a s → Q' a s) (h : P.wp i p Q s) : P.wp i p Q' s := by
  induction p generalizing s with
  | ret a => exact hQ a s hs h
  | vis o k ih =>
      intro s' hrely hs'
      obtain ⟨hready, hstep⟩ := h s' hrely hs'
      refine ⟨hready, fun r s'' hperform => ?_⟩
      obtain ⟨hallowed, hk⟩ := hstep r s'' hperform
      exact ⟨hallowed, ih r hallowed.1 hk⟩

theorem wp_bind {i : ι} {p : Prog (S.Resp i) α} {f : α → Prog (S.Resp i) β} {Q : β → σ → Prop}
    {s : σ} (h : P.wp i p (fun a => P.wp i (f a) Q) s) : P.wp i (p >>= f) Q s := by
  induction p generalizing s with
  | ret a => exact h
  | vis o k ih =>
      intro s' hrely hs'
      obtain ⟨hready, hstep⟩ := h s' hrely hs'
      refine ⟨hready, fun r s'' hperform => ?_⟩
      obtain ⟨hallowed, hk⟩ := hstep r s'' hperform
      exact ⟨hallowed, ih r hk⟩

/-- What the other threads do does not spoil a weakest precondition, if it does not spoil its
    postcondition. -/
theorem wp_stable {i : ι} {p : Prog (S.Resp i) α} {Q : α → σ → Prop}
    (hQ : ∀ a, P.Stable i (Q a)) : P.Stable i (P.wp i p Q) := by
  intro s s' h hrely hs'
  cases p with
  | ret a => exact hQ a s s' h hrely hs'
  | vis o k => exact fun s'' hrely' hs'' => h s'' (P.rely_trans i s s' s'' hrely hrely') hs''

theorem Triple.ret {P : S.Proof} {i : ι} {pre : σ → Prop} {a : α} {Q : α → σ → Prop}
    (h : ∀ s, P.inv s → pre s → Q a s) : P.Triple i pre (.ret a) Q :=
  h

theorem Triple.bind {P : S.Proof} {i : ι} {pre : σ → Prop} {p : Prog (S.Resp i) α}
    {R : α → σ → Prop} {f : α → Prog (S.Resp i) β} {Q : β → σ → Prop} (hp : P.Triple i pre p R)
    (hf : ∀ a, P.Triple i (R a) (f a) Q) : P.Triple i pre (p >>= f) Q := by
  intro s hs hpre
  exact P.wp_bind (P.wp_mono hs (fun a s' hs' hR => hf a s' hs' hR) (hp s hs hpre))

theorem Triple.conseq {P : S.Proof} {i : ι} {pre pre' : σ → Prop} {p : Prog (S.Resp i) α}
    {Q Q' : α → σ → Prop} (hp : P.Triple i pre p Q) (hpre : ∀ s, P.inv s → pre' s → pre s)
    (hQ : ∀ a s, P.inv s → Q a s → Q' a s) : P.Triple i pre' p Q' := by
  intro s hs h
  exact P.wp_mono hs hQ (hp s hs (hpre s hs h))

/-- One operation and what follows: its precondition must withstand the other threads. -/
theorem Triple.vis {P : S.Proof} {i : ι} {pre : σ → Prop} {o : S.Op i}
    {k : S.Resp i o → Prog (S.Resp i) α} {R : S.Resp i o → σ → Prop} {Q : α → σ → Prop}
    (hstable : P.Stable i pre) (hready : ∀ s, P.inv s → pre s → P.ready i o s)
    (hstep : ∀ s r s', P.inv s → pre s → S.perform i o s r s' → P.Allowed i s s' ∧ R r s')
    (hk : ∀ r, P.Triple i (R r) (k r) Q) : P.Triple i pre (.vis o k) Q := by
  intro s hs hpre s' hrely hs'
  have hpre' := hstable s s' hpre hrely hs'
  refine ⟨hready s' hs' hpre', fun r s'' hperform => ?_⟩
  obtain ⟨hallowed, hR⟩ := hstep s' r s'' hs' hpre' hperform
  exact ⟨hallowed, hk r s'' hallowed.1 hR⟩

theorem Triple.op {P : S.Proof} {i : ι} {pre : σ → Prop} {o : S.Op i}
    {Q : S.Resp i o → σ → Prop} (hstable : P.Stable i pre)
    (hready : ∀ s, P.inv s → pre s → P.ready i o s)
    (hstep : ∀ s r s', P.inv s → pre s → S.perform i o s r s' → P.Allowed i s s' ∧ Q r s') :
    P.Triple i pre (Prog.op o) Q :=
  Triple.vis hstable hready hstep (fun _ => Triple.ret (fun _ _ h => h))

/-- An assertion that neither the other threads nor the operations of this one disturb is kept. -/
theorem Triple.frame {P : S.Proof} {i : ι} {F pre : σ → Prop} {p : Prog (S.Resp i) α}
    {Q : α → σ → Prop} (hstable : P.Stable i F)
    (hown : ∀ o s r s', F s → S.perform i o s r s' → F s') (h : P.Triple i pre p Q) :
    P.Triple i (fun s => F s ∧ pre s) p (fun a s => F s ∧ Q a s) := by
  rintro s hs ⟨hF, hpre⟩
  have hwp := h s hs hpre
  clear hpre h
  induction p generalizing s with
  | ret a => exact ⟨hF, hwp⟩
  | vis o k ih =>
      intro s' hrely hs'
      obtain ⟨hready, hstep⟩ := hwp s' hrely hs'
      refine ⟨hready, fun r s'' hperform => ?_⟩
      obtain ⟨hallowed, hk⟩ := hstep r s'' hperform
      exact ⟨hallowed, ih r s'' hallowed.1 (hown o s' r s'' (hstable s s' hF hrely hs') hperform) hk⟩

theorem Triple.or {P : S.Proof} {i : ι} {pre pre' : σ → Prop} {p : Prog (S.Resp i) α}
    {Q : α → σ → Prop} (h : P.Triple i pre p Q) (h' : P.Triple i pre' p Q) :
    P.Triple i (fun s => pre s ∨ pre' s) p Q := by
  rintro s hs (hpre | hpre)
  · exact h s hs hpre
  · exact h' s hs hpre

theorem Triple.exists {P : S.Proof} {i : ι} {X : Type} {pre : X → σ → Prop}
    {p : Prog (S.Resp i) α} {Q : α → σ → Prop} (h : ∀ x, P.Triple i (pre x) p Q) :
    P.Triple i (fun s => ∃ x, pre x s) p Q := by
  rintro s hs ⟨x, hpre⟩
  exact h x s hs hpre

theorem Triple.pure {P : S.Proof} {i : ι} {φ : Prop} {pre : σ → Prop} {p : Prog (S.Resp i) α}
    {Q : α → σ → Prop} (h : φ → P.Triple i pre p Q) :
    P.Triple i (fun s => φ ∧ pre s) p Q := by
  rintro s hs ⟨hφ, hpre⟩
  exact h hφ s hs hpre

/-- A translated program keeps what the translation of each operation keeps. -/
theorem Triple.interp {P : S.Proof} {i : ι} {Op' : Type} {Resp' : Op' → Type}
    {handler : (o : Op') → Prog (S.Resp i) (Resp' o)} {A : σ → Prop}
    (hhandler : ∀ o, P.Triple i A (handler o) (fun _ => A)) (p : Prog Resp' α) :
    P.Triple i A (p.interp handler) (fun _ => A) := by
  induction p with
  | ret a => exact Triple.ret (fun _ _ h => h)
  | vis o k ih =>
      rw [interp_vis]
      exact Triple.bind (hhandler o) ih

/-- A receiver that reads the messages `ms`, where each of its receives gets the next of them. -/
theorem Triple.reads {P : S.Proof} {i : ι} {ε : Type}
    {handler : (o : RecvOp ε) → Prog (S.Resp i) o.Resp} {p : RecvProg ε α} {ms : List Bytes}
    {a : α} (hreads : Receive.Reads p ms a) (A : ℕ → σ → Prop)
    (hrecv : ∀ j m, ms[j]? = some m →
      P.Triple i (A j) (handler (.recv m.length)) (fun r s => r = m ∧ A (j + 1) s)) :
    P.Triple i (A 0) (p.interp handler) (fun r s => r = a ∧ A ms.length s) := by
  induction hreads generalizing A with
  | ret a => exact Triple.ret (fun s _ h => ⟨rfl, h⟩)
  | @recv n k m ms a hlen _ ih =>
      subst hlen
      rw [interp_vis]
      refine Triple.bind (hrecv 0 m rfl) (fun r => Triple.pure ?_)
      intro hr
      rw [hr]
      exact ih (fun j => A (j + 1)) (fun j m' hj => hrecv (j + 1) m' hj)

/-! ## Soundness -/

/-- The proof of a system that starts in the state `s₀` at the given labels. -/
structure Valid (s₀ : σ) (labels : (i : ι) → S.Label i) : Prop where
  inv_start : P.inv s₀
  post_start : ∀ i, P.post i (labels i) s₀
  post_stable : ∀ i l, P.Stable i (P.post i l)
  code_safe : ∀ i l, P.Triple i (P.post i l) (S.code i l) (P.post i)

/-- What holds of a configuration along every run: the invariant, and the weakest precondition of
    what is left of every thread's program. -/
structure Holds (c : S.Config) : Prop where
  inv : P.inv c.shared
  safe : ∀ i, P.wp i (c.control i) (P.post i) c.shared

/-- A thread that is due to perform an operation finds it ready. -/
theorem Holds.ready {P : S.Proof} {c : S.Config} (h : P.Holds c) {i : ι} {o : S.Op i}
    {k : S.Resp i o → Prog (S.Resp i) (S.Label i)} (hctl : c.control i = .vis o k) :
    P.ready i o c.shared := by
  have hi := h.safe i
  rw [hctl] at hi
  exact (hi c.shared (P.rely_refl i c.shared) h.inv).1

theorem Holds.post {P : S.Proof} {c : S.Config} (h : P.Holds c) {i : ι} {l : S.Label i}
    (hctl : c.control i = .ret l) : P.post i l c.shared := by
  have hi := h.safe i
  rw [hctl] at hi
  exact hi

variable [DecidableEq ι]

theorem holds_step {P : S.Proof} {s₀ : σ} {labels : (i : ι) → S.Label i} (h : P.Valid s₀ labels)
    {c c' : S.Config} (hc : P.Holds c) (hstep : S.Step c c') : P.Holds c' := by
  cases hstep with
  | act i r s' hctl hperform =>
      have hi := hc.safe i
      rw [hctl] at hi
      obtain ⟨-, hrun⟩ := hi c.shared (P.rely_refl i c.shared) hc.inv
      obtain ⟨hallowed, hk⟩ := hrun r s' hperform
      refine ⟨hallowed.1, fun j => ?_⟩
      by_cases hj : j = i
      · subst hj
        simpa only [Function.update_self] using hk
      · simp only [Function.update_of_ne hj]
        exact P.wp_stable (h.post_stable j) _ _ (hc.safe j) (hallowed.2 j hj) hallowed.1
  | goto i hctl =>
      have hi := hc.safe i
      rw [hctl] at hi
      refine ⟨hc.inv, fun j => ?_⟩
      by_cases hj : j = i
      · subst hj
        simpa only [Function.update_self] using h.code_safe j _ c.shared hc.inv hi
      · simp only [Function.update_of_ne hj]
        exact hc.safe j

/-- **Soundness.** A valid proof holds along every run. -/
theorem sound {P : S.Proof} {s₀ : σ} {labels : (i : ι) → S.Label i} (h : P.Valid s₀ labels)
    {c : S.Config} (hc : S.Reachable (S.start s₀ labels) c) : P.Holds c := by
  induction hc with
  | start => exact ⟨h.inv_start, h.post_start⟩
  | step _ hstep ih => exact holds_step h ih hstep

-- from here on programs are reasoned about by the rules
attribute [irreducible] wp Triple

end Proof

end ThreadSystem
