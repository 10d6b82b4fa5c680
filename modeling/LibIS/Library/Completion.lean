import LibIS.Library.Threads
import Mathlib.Data.DFinsupp.WellFounded

set_option autoImplicit false

/-! # Runs that come to their end

`Inevitably done c` says that every run from `c` comes to `done`, whichever thread steps when: as
long as it has not, some thread can step, and this cannot go on for ever. It follows from two things
(`inevitably_of_costs`). The code of every label costs less than the label is worth, counted by its
operations, so runs are bounded. And a configuration in which no thread can step is `done`.

The second is about all threads where they wait, so it takes a proof that says of an operation that
is due when it can be performed. `Proof.more` is a second proof on top of a valid one: its triples
may use that every step is one that the first proof allows, and need not show it again
(`Proof.more_sound`). -/

open Prog

namespace Prog

variable {Op : Type} {Resp : Op → Type} {α β : Type}

/-- With these answers, the operations on a path, and what its result is worth, are at most `n`. -/
def Costs (answers : (o : Op) → Resp o → Prop) (worth : α → ℕ) : Prog Resp α → ℕ → Prop
  | ret a, n => worth a ≤ n
  | vis o k, n => 0 < n ∧ ∀ r, answers o r → (k r).Costs answers worth (n - 1)

section Costs

variable {answers : (o : Op) → Resp o → Prop} {worth : α → ℕ} {p : Prog Resp α} {m n : ℕ}

theorem Costs.ret {a : α} (h : worth a ≤ n) : (ret a : Prog Resp α).Costs answers worth n :=
  h

theorem Costs.vis {o : Op} {k : Resp o → Prog Resp α} (h : ∀ r, (k r).Costs answers worth n) :
    (vis o k).Costs answers worth (n + 1) :=
  ⟨Nat.succ_pos n, fun r _ => h r⟩

theorem Costs.mono (h : p.Costs answers worth m) (hle : m ≤ n) : p.Costs answers worth n := by
  induction p generalizing m n with
  | ret a => exact Nat.le_trans h hle
  | vis o k ih =>
      refine ⟨Nat.lt_of_lt_of_le h.1 hle, fun r hr => ?_⟩
      exact ih r (h.2 r hr) (Nat.sub_le_sub_right hle 1)

theorem Costs.bind {f : α → Prog Resp β} {worth' : β → ℕ} (h : p.Costs answers worth n)
    (hf : ∀ a, (f a).Costs answers worth' (worth a)) : (p >>= f).Costs answers worth' n := by
  induction p generalizing n with
  | ret a => exact (hf a).mono h
  | vis o k ih => exact ⟨h.1, fun r hr => ih r (h.2 r hr)⟩

theorem Costs.op {o : Op} {worth : Resp o → ℕ} (h : ∀ r, worth r ≤ n) :
    (Prog.op o : Prog Resp (Resp o)).Costs answers worth (n + 1) :=
  Costs.vis h

theorem Costs.op_of {o : Op} {worth : Resp o → ℕ} (h : ∀ r, answers o r → worth r ≤ n) :
    (Prog.op o : Prog Resp (Resp o)).Costs answers worth (n + 1) :=
  ⟨Nat.succ_pos n, h⟩

/-- A translated program costs what the program does, where an operation becomes one operation. -/
theorem Costs.interp {Op' : Type} {Resp' : Op' → Type} {answers' : (o : Op') → Resp' o → Prop}
    {handler : (o : Op) → Prog Resp' (Resp o)}
    (hhandler : ∀ o m, (handler o).Costs answers' (fun _ => m) (m + 1))
    (h : p.Costs (fun _ _ => True) worth n) : (p.interp handler).Costs answers' worth n := by
  induction p generalizing n with
  | ret a => exact h
  | vis o k ih =>
      obtain ⟨hpos, hk⟩ := h
      obtain ⟨m, rfl⟩ := Nat.exists_eq_succ_of_ne_zero hpos.ne'
      rw [interp_vis]
      exact Costs.bind (hhandler o m) (fun r => ih r (hk r trivial))

end Costs

end Prog

namespace ThreadSystem

variable {ι σ : Type} (S : ThreadSystem ι σ)

/-! ## Coming to an end -/

section Inevitably

variable [DecidableEq ι] (final : (i : ι) → S.Label i → Prop)

/-- One step of some thread that is not at its end. -/
inductive Advance : S.Config → S.Config → Prop
  | act (c : S.Config) (i : ι) {o : S.Op i} {k : S.Resp i o → Prog (S.Resp i) (S.Label i)}
      (r : S.Resp i o) (s' : σ) (hctl : c.control i = .vis o k)
      (hperform : S.perform i o c.shared r s') :
      Advance c ⟨s', Function.update c.control i (k r)⟩
  | goto (c : S.Config) (i : ι) {l : S.Label i} (hctl : c.control i = .ret l)
      (hgoes : ¬ final i l) :
      Advance c ⟨c.shared, Function.update c.control i (S.code i l)⟩

/-- Every run comes to `done`. -/
inductive Inevitably (done : S.Config → Prop) : S.Config → Prop
  | done {c : S.Config} (h : done c) : Inevitably done c
  | later {c : S.Config} (hmove : ∃ c', S.Advance final c c')
      (hall : ∀ c', S.Advance final c c' → Inevitably done c') : Inevitably done c

/-- The configurations that runs from `c₀` reach in which no thread goes on from its end. -/
inductive Advances (c₀ : S.Config) : S.Config → Prop
  | start : Advances c₀ c₀
  | step {c c' : S.Config} (h : Advances c₀ c) (hstep : S.Advance final c c') : Advances c₀ c'

variable {S final}

theorem Advance.step {c c' : S.Config} (h : S.Advance final c c') : S.Step c c' := by
  cases h with
  | act i r s' hctl hperform => exact .act c i r s' hctl hperform
  | goto i hctl _ => exact .goto c i hctl

theorem Advances.reachable {c₀ c : S.Config} (h : S.Advances final c₀ c) : S.Reachable c₀ c := by
  induction h with
  | start => exact .start
  | step _ hstep ih => exact ih.step hstep.step

theorem Advances.mono {cond cond' : (i : ι) → (o : S.Op i) → σ → S.Resp i o → Prop}
    {final final' : (i : ι) → S.Label i → Prop} {c₀ c : (S.guarded cond).Config}
    (hcond : ∀ i o s r, cond i o s r → cond' i o s r) (hfinal : ∀ i l, final' i l → final i l)
    (h : (S.guarded cond).Advances final c₀ c) :
    (S.guarded cond').Advances final' ⟨c₀.shared, c₀.control⟩ ⟨c.shared, c.control⟩ := by
  induction h with
  | start => exact .start
  | @step c _ _ hstep ih =>
      refine ih.step ?_
      cases hstep with
      | @act i o k r s' hctl hperform =>
          exact @Advance.act ι σ (S.guarded cond') _ final' ⟨c.shared, c.control⟩ i o k r s' hctl
            ⟨hperform.1, hcond i o _ r hperform.2⟩
      | @goto i l hctl hgoes =>
          exact @Advance.goto ι σ (S.guarded cond') _ final' ⟨c.shared, c.control⟩ i l hctl
            (fun hl => hgoes (hfinal i l hl))

/-- A thread that cannot step is at its end, or its operation has no answer. -/
theorem blocked_of_stuck {c : S.Config} (h : ∀ c', ¬ S.Advance final c c') (i : ι) :
    (∃ l, c.control i = .ret l ∧ final i l) ∨
      ∃ o k, c.control i = .vis o k ∧ ∀ r s', ¬ S.perform i o c.shared r s' := by
  cases hctl : c.control i with
  | ret l =>
      refine .inl ⟨l, rfl, ?_⟩
      by_contra hgoes
      exact h _ (.goto c i hctl hgoes)
  | vis o k =>
      exact .inr ⟨o, k, rfl, fun r s' hperform => h _ (.act c i r s' hctl hperform)⟩

/-- Where code costs less than the labels are worth, no run goes on for ever. -/
theorem acc_of_costs [Finite ι] (good : S.Config → Prop)
    (answers : (i : ι) → (o : S.Op i) → S.Resp i o → Prop) (worth : (i : ι) → S.Label i → ℕ)
    (hgood : ∀ c c', good c → S.Advance final c c' → good c')
    (hanswers : ∀ i o s r s', S.perform i o s r s' → answers i o r)
    (hcosts : ∀ c i l, good c → c.control i = .ret l → ¬ final i l →
      ∃ n, n < worth i l ∧ (S.code i l).Costs (answers i) (worth i) n) (budget : ι → ℕ) :
    ∀ c, good c → (∀ i, (c.control i).Costs (answers i) (worth i) (budget i)) →
      Acc (fun c' c => S.Advance final c c') c := by
  induction budget using WellFoundedLT.induction with
  | ind budget ih =>
      intro c hc hbudget
      refine Acc.intro c (fun c' hstep => ?_)
      -- the thread that steps has less to spend, and the others have what they had
      have hless : ∀ (i : ι) (n : ℕ) (s' : σ) (p : Prog (S.Resp i) (S.Label i)), n < budget i →
          p.Costs (answers i) (worth i) n → good ⟨s', Function.update c.control i p⟩ →
          Acc (fun c' c => S.Advance final c c') ⟨s', Function.update c.control i p⟩ := by
        intro i n s' p hlt hp hnext
        have hle : Function.update budget i n ≤ budget := update_le_self_iff.2 hlt.le
        have hspent : Function.update budget i n < budget :=
          Pi.lt_def.2 ⟨hle, i, by rwa [Function.update_self]⟩
        refine ih _ hspent _ hnext (fun j => ?_)
        by_cases hj : j = i
        · subst hj
          simpa only [Function.update_self] using hp
        · simpa only [Function.update_of_ne hj] using hbudget j
      have hnext := hgood c c' hc hstep
      cases hstep with
      | @act i o k r s' hctl hperform =>
          have hi := hbudget i
          rw [hctl] at hi
          have hr := hanswers i o c.shared r s' hperform
          exact hless i _ s' (k r) (Nat.sub_lt hi.1 Nat.one_pos) (hi.2 r hr) hnext
      | @goto i l hctl hgoes =>
          have hi := hbudget i
          rw [hctl] at hi
          obtain ⟨n, hlt, hcode⟩ := hcosts c i l hc hctl hgoes
          exact hless i n c.shared (S.code i l) (Nat.lt_of_lt_of_le hlt hi) hcode hnext

/-- Where no run goes on for ever, and only what is `done` cannot step, every run comes to `done`.
    -/
theorem inevitably_of_acc {done : S.Config → Prop} (good : S.Config → Prop)
    (hgood : ∀ c c', good c → S.Advance final c c' → good c')
    (hstuck : ∀ c, good c → (∀ c', ¬ S.Advance final c c') → done c) {c : S.Config}
    (hacc : Acc (fun c' c => S.Advance final c c') c) (hc : good c) :
    S.Inevitably final done c := by
  induction hacc with
  | intro c _ ih =>
      by_cases hmove : ∃ c', S.Advance final c c'
      · exact .later hmove (fun c' hstep => ih c' hstep (hgood c c' hc hstep))
      · exact .done (hstuck c hc (fun c' hstep => hmove ⟨c', hstep⟩))

/-- Where code costs less than the labels are worth, and only what is `done` cannot step, every run
    comes to `done`. -/
theorem inevitably_of_costs [Finite ι] {done : S.Config → Prop} (good : S.Config → Prop)
    (answers : (i : ι) → (o : S.Op i) → S.Resp i o → Prop) (worth : (i : ι) → S.Label i → ℕ)
    (hgood : ∀ c c', good c → S.Advance final c c' → good c')
    (hanswers : ∀ i o s r s', S.perform i o s r s' → answers i o r)
    (hcosts : ∀ c i l, good c → c.control i = .ret l → ¬ final i l →
      ∃ n, n < worth i l ∧ (S.code i l).Costs (answers i) (worth i) n)
    (hstuck : ∀ c, good c → (∀ c', ¬ S.Advance final c c') → done c) (budget : ι → ℕ) :
    ∀ c, good c → (∀ i, (c.control i).Costs (answers i) (worth i) (budget i)) →
      S.Inevitably final done c :=
  fun c hc hbudget => inevitably_of_acc good hgood hstuck
    (acc_of_costs good answers worth hgood hanswers hcosts budget c hc hbudget) hc

end Inevitably

/-- No run goes on for ever if it is matched by one that does not, where only finitely many of its
    steps at a time are matched by none. -/
theorem acc_of_matched {α β ω : Type} [Preorder ω] [WellFoundedLT ω] {stepA : α → α → Prop}
    {stepB : β → β → Prop} (R : ω → α → β → Prop)
    (hmatch : ∀ m a b b', R m a b → stepB b b' → ∃ m' a', R m' a' b' ∧
      (Relation.TransGen stepA a a' ∨ (a' = a ∧ m' < m))) {a : α}
    (hacc : Acc (fun a' a => stepA a a') a) :
    ∀ m b, R m a b → Acc (fun b' b => stepB b b') b := by
  have hmoves := hacc.transGen
  clear hacc
  induction hmoves with
  | intro a _ ih =>
      intro m
      induction m using WellFoundedLT.induction with
      | ind m ihm =>
          intro b hb
          refine Acc.intro b (fun b' hstep => ?_)
          obtain ⟨m', a', hb', hsteps | ⟨rfl, hlt⟩⟩ := hmatch m a b b' hb hstep
          · exact ih a' (Relation.transGen_swap.2 hsteps) m' b' hb'
          · exact ihm m' hlt b' hb'

/-! ## A proof on top of a proof -/

namespace Proof

variable {S}

/-- The steps that meet `cond`, as the proof knows them. -/
@[reducible] def known (P : S.Proof) (cond : (i : ι) → (o : S.Op i) → σ → S.Resp i o → Prop) :
    ThreadSystem ι σ :=
  { S with perform := fun i o s r s' =>
      S.perform i o s r s' ∧ cond i o s r ∧ P.ready i o s ∧ P.Allowed i s s' }

/-- More about the operations that are due and about the labels. -/
@[reducible] def more (P : S.Proof) (cond : (i : ι) → (o : S.Op i) → σ → S.Resp i o → Prop)
    (ready : (i : ι) → S.Op i → σ → Prop) (post : (i : ι) → S.Label i → σ → Prop) :
    (P.known cond).Proof where
  inv := P.inv
  rely := P.rely
  ready := ready
  post := post
  rely_refl := P.rely_refl
  rely_trans := P.rely_trans

variable {P : S.Proof} {cond : (i : ι) → (o : S.Op i) → σ → S.Resp i o → Prop}
  {ready : (i : ι) → S.Op i → σ → Prop} {post : (i : ι) → S.Label i → σ → Prop} {α : Type} {i : ι}

/-- What the first proof shows may be used in the second. -/
theorem Triple.and_known {pre pre' : σ → Prop} {p : Prog (S.Resp i) α} {Q Q' : α → σ → Prop}
    (h : P.Triple i pre p Q) (h' : (P.more cond ready post).Triple i pre' p Q') :
    (P.more cond ready post).Triple i (fun s => pre s ∧ pre' s) p (fun a s => Q a s ∧ Q' a s) := by
  rw [triple_iff] at h h' ⊢
  rintro s hs ⟨hpre, hpre'⟩
  have hwp := h s hs hpre
  have hwp' := h' s hs hpre'
  clear h h' hpre hpre'
  induction p generalizing s with
  | ret a => exact (wp_ret _).2 ⟨(wp_ret _).1 hwp, (wp_ret _).1 hwp'⟩
  | vis o k ih =>
      rw [wp_vis] at hwp hwp' ⊢
      intro s' hrely hs'
      obtain ⟨-, hstep⟩ := hwp s' hrely hs'
      obtain ⟨hready', hstep'⟩ := hwp' s' hrely hs'
      refine ⟨hready', fun r s'' hperform => ?_⟩
      obtain ⟨hallowed, hk⟩ := hstep r s'' hperform.1
      exact ⟨hallowed, ih r s'' hallowed.1 hk (hstep' r s'' hperform).2⟩

theorem Triple.more_op {o : S.Op i} {pre : σ → Prop} {Q : S.Resp i o → σ → Prop}
    (hstable : P.Stable i pre) (hready : ∀ s, P.inv s → pre s → ready i o s)
    (hstep : ∀ s r s', P.inv s → pre s → S.perform i o s r s' → cond i o s r → P.ready i o s →
      Q r s') : (P.more cond ready post).Triple i pre (Prog.op o) Q := by
  refine Triple.op hstable hready ?_
  rintro s r s' hs hpre ⟨hperform, hcond, hdue, hallowed⟩
  exact ⟨hallowed, hstep s r s' hs hpre hperform hcond hdue⟩

/-- What follows from more than the first proof needs, next to what it shows. -/
theorem Triple.with_known {pre pre' : σ → Prop} {p : Prog (S.Resp i) α} {Q Q' : α → σ → Prop}
    (h : P.Triple i pre p Q)
    (h' : (P.more cond ready post).Triple i (fun s => pre s ∧ pre' s) p Q') :
    (P.more cond ready post).Triple i (fun s => pre s ∧ pre' s) p (fun a s => Q a s ∧ Q' a s) :=
  Triple.conseq (Triple.and_known h h') (fun _ _ h => ⟨h.1, h⟩) (fun _ _ _ h => h)

theorem ready_of_wp {s : σ} {o : S.Op i} {k : S.Resp i o → Prog (S.Resp i) α} {Q : α → σ → Prop}
    (hs : P.inv s) (h : (P.more cond ready post).wp i (.vis o k) Q s) : ready i o s :=
  ((wp_vis _).1 h s (P.rely_refl i s) hs).1

/-- A configuration of the runs whose steps meet `cond`. -/
def unguard (c : (S.guarded cond).Config) : S.Config :=
  ⟨c.shared, c.control⟩

variable [DecidableEq ι]

theorem step_unguard {c c' : (S.guarded cond).Config} (h : (S.guarded cond).Step c c') :
    S.Step (unguard c) (unguard c') := by
  cases h with
  | act i r s' hctl hperform => exact @Step.act ι σ S _ (unguard c) i _ _ r s' hctl hperform.1
  | goto i hctl => exact @Step.goto ι σ S _ (unguard c) i _ hctl

theorem reachable_unguard {s₀ : σ} {labels : (i : ι) → S.Label i} {c : (S.guarded cond).Config}
    (h : (S.guarded cond).Reachable (start (S.guarded cond) s₀ labels) c) :
    S.Reachable (start S s₀ labels) (unguard c) := by
  induction h with
  | start => exact .start
  | step _ hstep ih => exact ih.step (step_unguard hstep)

/-- **Soundness** of the second proof, for the runs whose steps all meet `cond` and in which no
    thread goes on from its end. -/
theorem more_sound {final : (i : ι) → S.Label i → Prop} {s₀ : σ} {labels : (i : ι) → S.Label i}
    (hvalid : P.Valid s₀ labels) (hstart : ∀ i, post i (labels i) s₀)
    (hstable : ∀ i l, P.Stable i (post i l))
    (hsafe : ∀ i l, ¬ final i l → (P.more cond ready post).Triple i
      (fun s => P.post i l s ∧ post i l s) (S.code i l) (post i)) {c : (S.guarded cond).Config}
    (hc : (S.guarded cond).Advances final (start (S.guarded cond) s₀ labels) c) :
    ∀ i, (P.more cond ready post).wp i (c.control i) (post i) c.shared := by
  induction hc with
  | start => exact fun i => (wp_ret _).2 (hstart i)
  | @step c c' hc hstep ih =>
      have hholds : P.Holds (unguard c) := sound hvalid (reachable_unguard hc.reachable)
      cases hstep with
      | @act i o k r s' hctl hperform =>
          have hi : P.wp i ((unguard c).control i) (P.post i) (unguard c).shared := hholds.safe i
          have hi' := ih i
          rw [show (unguard c).control i = .vis o k from hctl] at hi
          rw [hctl] at hi'
          obtain ⟨hdue, hallow⟩ := (wp_vis P).1 hi c.shared (P.rely_refl i c.shared) hholds.inv
          obtain ⟨-, hnext⟩ := (wp_vis _).1 hi' c.shared (P.rely_refl i c.shared) hholds.inv
          have hallowed := (hallow r s' hperform.1).1
          intro j
          by_cases hj : j = i
          · subst hj
            simp only [Function.update_self]
            exact (hnext r s' ⟨hperform.1, hperform.2, hdue, hallowed⟩).2
          · simp only [Function.update_of_ne hj]
            exact wp_stable (P.more cond ready post) (hstable j) _ _ (ih j) (hallowed.2 j hj)
              hallowed.1
      | @goto i l hctl hgoes =>
          intro j
          by_cases hj : j = i
          · subst hj
            have hj' := ih j
            rw [hctl] at hj'
            simp only [Function.update_self]
            exact (triple_iff (P.more cond ready post)).1 (hsafe j l hgoes) c.shared hholds.inv
              ⟨hholds.post hctl, (wp_ret _).1 hj'⟩
          · simp only [Function.update_of_ne hj]
            exact ih j

end Proof

end ThreadSystem
