import Mathlib.Init

set_option autoImplicit false

/-! # Programs over operations

`Prog Resp α` is the shallow embedding of a sequential program that acts on its environment through
operations of a type `Op`; operation `o` is answered by a value of `Resp o`. A program is the tree of
its possible runs, so the semantics of an operation (which answers it may get, what it does to the
world) is chosen later, by whoever runs the program. `Prog.interp` translates programs over one set
of operations into programs over another. -/

/-- A program over operations `Op` with answers `Resp`, ending in a value of `α`. -/
inductive Prog {Op : Type} (Resp : Op → Type) (α : Type) : Type
  | ret (a : α)
  | vis (o : Op) (k : Resp o → Prog Resp α)

namespace Prog

variable {Op : Type} {Resp : Op → Type} {α β γ : Type}

/-- Sequential composition. -/
def bind : Prog Resp α → (α → Prog Resp β) → Prog Resp β
  | ret a, f => f a
  | vis o k, f => vis o (fun r => (k r).bind f)

instance : Monad (Prog Resp) where
  pure := ret
  bind := bind

/-- The program that performs one operation and returns its answer. -/
def op (o : Op) : Prog Resp (Resp o) :=
  vis o ret

@[simp] theorem pure_eq (a : α) : (pure a : Prog Resp α) = ret a := rfl

@[simp] theorem ret_bind (a : α) (f : α → Prog Resp β) : ret a >>= f = f a := rfl

@[simp] theorem vis_bind (o : Op) (k : Resp o → Prog Resp α) (f : α → Prog Resp β) :
    vis o k >>= f = vis o (fun r => k r >>= f) := rfl

@[simp] theorem op_bind (o : Op) (f : Resp o → Prog Resp β) : op o >>= f = vis o f := rfl

theorem bind_ret (p : Prog Resp α) : p >>= ret = p := by
  induction p with
  | ret a => rfl
  | vis o k ih =>
      rw [vis_bind]
      exact congrArg (vis o) (funext ih)

@[simp] theorem bind_assoc (p : Prog Resp α) (f : α → Prog Resp β) (g : β → Prog Resp γ) :
    p >>= f >>= g = p >>= fun a => f a >>= g := by
  induction p with
  | ret a => rfl
  | vis o k ih =>
      rw [vis_bind, vis_bind, vis_bind]
      exact congrArg (vis o) (funext ih)

instance : LawfulMonad (Prog Resp) :=
  LawfulMonad.mk' (Prog Resp) bind_ret (fun _ _ => rfl) bind_assoc

@[simp] theorem map_eq (f : α → β) (p : Prog Resp α) : f <$> p = p >>= fun a => ret (f a) := by
  rw [map_eq_pure_bind]; rfl

/-! ## Translating the operations -/

/-- Replace every operation by a program over another set of operations. -/
def interp {Op' : Type} {Resp' : Op' → Type} (h : (o : Op) → Prog Resp' (Resp o)) :
    Prog Resp α → Prog Resp' α
  | ret a => ret a
  | vis o k => (h o).bind (fun r => (k r).interp h)

section Interp

variable {Op' : Type} {Resp' : Op' → Type} (h : (o : Op) → Prog Resp' (Resp o))

@[simp] theorem interp_ret (a : α) : (ret a : Prog Resp α).interp h = ret a := rfl

@[simp] theorem interp_vis (o : Op) (k : Resp o → Prog Resp α) :
    (vis o k).interp h = h o >>= fun r => (k r).interp h := rfl

end Interp

/-! ## Running against a state -/

/-- Run a program whose operations are answered by `answer`. Returns the state that is left and the
    result, `none` when an operation had no answer. -/
def run {σ : Type} (answer : (o : Op) → σ → Option (Resp o × σ)) : Prog Resp α → σ → σ × Option α
  | ret a, s => (s, some a)
  | vis o k, s =>
      match answer o s with
      | none => (s, none)
      | some (r, s') => (k r).run answer s'

/-- Perform up to `n` operations, as long as they are answered. Returns the rest of the program and
    the state that is left. -/
def advance {σ : Type} (answer : (o : Op) → σ → Option (Resp o × σ)) :
    Nat → Prog Resp α → σ → Prog Resp α × σ
  | 0, p, s => (p, s)
  | _ + 1, ret a, s => (ret a, s)
  | n + 1, vis o k, s =>
      match answer o s with
      | none => (vis o k, s)
      | some (r, s') => (k r).advance answer n s'

/-- The result of a program that has ended. -/
def result? : Prog Resp α → Option α
  | ret a => some a
  | vis _ _ => none

theorem result?_eq_some {p : Prog Resp α} {a : α} (h : p.result? = some a) : p = ret a := by
  cases p with
  | ret b => exact congrArg ret (Option.some.inj h)
  | vis o k => exact absurd h (by simp [result?])

/-- The operation that is due. -/
def due? : Prog Resp α → Option Op
  | ret _ => none
  | vis o _ => some o

theorem due?_eq_some {p : Prog Resp α} {o : Op} (h : p.due? = some o) : ∃ k, p = vis o k := by
  cases p with
  | ret a => exact absurd h (by simp [due?])
  | vis o' k =>
      obtain rfl := Option.some.inj h
      exact ⟨k, rfl⟩

section Run

variable {σ : Type} {answer : (o : Op) → σ → Option (Resp o × σ)}

@[simp] theorem run_ret (a : α) (s : σ) : (ret a : Prog Resp α).run answer s = (s, some a) := rfl

theorem run_vis {o : Op} {k : Resp o → Prog Resp α} {s s' : σ} {r : Resp o}
    (h : answer o s = some (r, s')) : (vis o k).run answer s = (k r).run answer s' := by
  rw [run, h]

theorem run_vis_none {o : Op} {k : Resp o → Prog Resp α} {s : σ} (h : answer o s = none) :
    (vis o k).run answer s = (s, none) := by
  rw [run, h]

/-- A sequence runs its second part in the state that the first one leaves. -/
theorem run_bind {p : Prog Resp α} {f : α → Prog Resp β} {s s' : σ} {a : α}
    (h : p.run answer s = (s', some a)) : (p >>= f).run answer s = (f a).run answer s' := by
  induction p generalizing s with
  | ret b =>
      obtain ⟨rfl, hb⟩ := Prod.mk.inj h
      obtain rfl := Option.some.inj hb
      rfl
  | vis o k ih =>
      cases hans : answer o s with
      | none =>
          rw [run_vis_none hans] at h
          exact absurd h (by simp)
      | some x =>
          obtain ⟨r, s₁⟩ := x
          rw [run_vis hans] at h
          rw [vis_bind, run_vis hans]
          exact ih r h

theorem run_bind_none {p : Prog Resp α} {f : α → Prog Resp β} {s s' : σ}
    (h : p.run answer s = (s', none)) : (p >>= f).run answer s = (s', none) := by
  induction p generalizing s with
  | ret b => exact absurd h (by simp)
  | vis o k ih =>
      cases hans : answer o s with
      | none =>
          rw [run_vis_none hans] at h
          obtain ⟨rfl, -⟩ := Prod.mk.inj h
          rw [vis_bind, run_vis_none hans]
      | some x =>
          obtain ⟨r, s₁⟩ := x
          rw [run_vis hans] at h
          rw [vis_bind, run_vis hans]
          exact ih r h

/-- Rounds of a loop: the code of a label is run to its end, which is the next label. -/
inductive Rounds {L : Type} (code : L → Prog Resp L)
    (answer : (o : Op) → σ → Option (Resp o × σ)) : L × σ → L × σ → Prop
  | refl (x : L × σ) : Rounds code answer x x
  | step {l l' : L} {s s' : σ} {x : L × σ} (hrun : (code l).run answer s = (s', some l'))
      (h : Rounds code answer (l', s') x) : Rounds code answer (l, s) x

/-- What every round preserves holds after all of them. -/
theorem Rounds.preserves {L : Type} {code : L → Prog Resp L} {x y : L × σ} {P : L → σ → Prop}
    (h : Rounds code answer x y)
    (hround : ∀ l s l' s', P l s → (code l).run answer s = (s', some l') → P l' s')
    (hx : P x.1 x.2) : P y.1 y.2 := by
  induction h with
  | refl x => exact hx
  | step hrun _ ih => exact ih (hround _ _ _ _ hx hrun)

theorem Rounds.concat {L : Type} {code : L → Prog Resp L} {x : L × σ} {l l' : L} {s s' : σ}
    (h : Rounds code answer x (l, s)) (hrun : (code l).run answer s = (s', some l')) :
    Rounds code answer x (l', s') := by
  generalize hy : (l, s) = y at h
  induction h with
  | refl x =>
      subst hy
      exact .step hrun (.refl _)
  | step hfirst _ ih => exact .step hfirst (ih hy)

end Run

/-! ## Executions

An execution of a program is the sequence of its operations with the answers they got. -/

/-- One operation with its answer. -/
abbrev Event {Op : Type} (Resp : Op → Type) := Sigma Resp

/-- `p.Steps ts q`: after the operations of `ts`, answered as in `ts`, the rest of `p` is `q`. -/
inductive Steps : Prog Resp α → List (Event Resp) → Prog Resp α → Prop
  | refl (p : Prog Resp α) : Steps p [] p
  | vis {o : Op} {k : Resp o → Prog Resp α} (r : Resp o) {ts : List (Event Resp)}
      {q : Prog Resp α} : Steps (k r) ts q → Steps (vis o k) (⟨o, r⟩ :: ts) q

/-- `p.Exec ts a`: performing the operations of `ts` with the answers in `ts`, the program returns
    `a`. -/
inductive Exec : Prog Resp α → List (Event Resp) → α → Prop
  | ret (a : α) : Exec (ret a) [] a
  | vis {o : Op} {k : Resp o → Prog Resp α} (r : Resp o) {ts : List (Event Resp)} {a : α} :
      Exec (k r) ts a → Exec (vis o k) (⟨o, r⟩ :: ts) a

section Exec

theorem Exec.steps {p : Prog Resp α} {ts : List (Event Resp)} {a : α} (h : Exec p ts a) :
    Steps p ts (Prog.ret a) := by
  induction h with
  | ret a => exact .refl _
  | vis r _ ih => exact .vis r ih

@[simp] theorem exec_ret {a b : α} {ts : List (Event Resp)} :
    Exec (ret a : Prog Resp α) ts b ↔ ts = [] ∧ b = a := by
  constructor
  · intro h
    cases h
    exact ⟨rfl, rfl⟩
  · rintro ⟨rfl, rfl⟩
    exact .ret _

@[simp] theorem exec_vis {o : Op} {k : Resp o → Prog Resp α} {ts : List (Event Resp)} {a : α} :
    Exec (vis o k) ts a ↔ ∃ r ts', ts = ⟨o, r⟩ :: ts' ∧ Exec (k r) ts' a := by
  constructor
  · intro h
    cases h with
    | vis r hk => exact ⟨r, _, rfl, hk⟩
  · rintro ⟨r, ts', rfl, hk⟩
    exact .vis r hk

/-- An execution of a sequence is an execution of the first part and one of the second. -/
theorem exec_bind {p : Prog Resp α} {f : α → Prog Resp β} {ts : List (Event Resp)} {b : β} :
    Exec (p >>= f) ts b ↔ ∃ ts₁ ts₂ a, ts = ts₁ ++ ts₂ ∧ Exec p ts₁ a ∧ Exec (f a) ts₂ b := by
  induction p generalizing ts with
  | ret a =>
      simp only [ret_bind, exec_ret]
      constructor
      · intro h
        exact ⟨[], ts, a, rfl, ⟨rfl, rfl⟩, h⟩
      · rintro ⟨ts₁, ts₂, a', rfl, ⟨rfl, rfl⟩, h⟩
        exact h
  | vis o k ih =>
      rw [vis_bind, exec_vis]
      constructor
      · rintro ⟨r, ts', rfl, h⟩
        obtain ⟨ts₁, ts₂, a, rfl, h₁, h₂⟩ := (ih r).1 h
        exact ⟨⟨o, r⟩ :: ts₁, ts₂, a, rfl, .vis r h₁, h₂⟩
      · rintro ⟨ts₁, ts₂, a, rfl, h₁, h₂⟩
        obtain ⟨r, ts', rfl, h₁'⟩ := exec_vis.1 h₁
        exact ⟨r, ts' ++ ts₂, rfl, (ih r).2 ⟨ts', ts₂, a, rfl, h₁', h₂⟩⟩

end Exec

end Prog
