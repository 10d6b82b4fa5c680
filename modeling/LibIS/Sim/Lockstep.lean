import LibIS.Sim.ConnectionManager
import Mathlib.Data.List.Infix

set_option autoImplicit false

/-! # Two simulation ranks in lockstep

The ranks meet only in their collectives, which are broadcasts with root 0 and `InterComm::connect`.
Rank 0 and another rank are in lockstep (`Lockstep`) if, whatever each does in between, they call
the same collectives one after the other, provided that the other rank is given what rank 0 sends
and that both connect with the same success. Of two runs in lockstep, finished or not, the
collectives of one start those of the other (`Lockstep.compare`). -/

open ByteCodec Prog

namespace LibIS

/-! ## Lists of which one starts the other -/

/-- One list goes on where the other ends. -/
def Compatible {α : Type} (l l' : List α) : Prop :=
  l <+: l' ∨ l' <+: l

namespace Compatible

variable {α : Type} {l l' : List α} {a b : α}

@[simp] theorem nil_left : Compatible [] l :=
  .inl List.nil_prefix

@[simp] theorem nil_right : Compatible l [] :=
  .inr List.nil_prefix

@[simp] theorem cons_iff : Compatible (a :: l) (b :: l') ↔ a = b ∧ Compatible l l' := by
  rw [Compatible, List.cons_prefix_cons, List.cons_prefix_cons, eq_comm (a := b), ← and_or_left,
    Compatible]

@[simp] theorem append_iff (x : List α) : Compatible (x ++ l) (x ++ l') ↔ Compatible l l' := by
  rw [Compatible, List.prefix_append_right_inj, List.prefix_append_right_inj, Compatible]

theorem of_append {x y : List α} (h : Compatible (l ++ x) (l' ++ y)) : Compatible l l' := by
  rcases h with h | h
  · exact List.prefix_or_prefix_of_prefix ((List.prefix_append l x).trans h)
      (List.prefix_append l' y)
  · exact List.prefix_or_prefix_of_prefix (List.prefix_append l x)
      ((List.prefix_append l' y).trans h)

end Compatible

/-! ## What a rank does -/

/-- What a rank has done, with the answers. -/
abbrev SimTrace (Conn : Type) := List (Event (@SimOp.Resp Conn))

/-- A collective as a rank calls it; every broadcast has root 0. -/
inductive Collective where
  | bcast (count : ℕ)
  | connect (host : StdString)
deriving DecidableEq

section Traces

variable {Conn : Type}

/-- The collective that an operation is. -/
def SimOp.collective? : SimOp Conn → Option Collective
  | .bcast buf => some (.bcast buf.length)
  | .connect host => some (.connect host)
  | _ => none

/-- The buffer that is passed to a broadcast. -/
def SimOp.buffer? : SimOp Conn → Option Bytes
  | .bcast buf => some buf
  | _ => none

/-- The collectives a rank has called: those of its trace, and the one that is due. -/
def called (ts : SimTrace Conn) (due : Option (SimOp Conn)) : List Collective :=
  (ts.map Sigma.fst ++ due.toList).filterMap SimOp.collective?

/-- The buffers it has passed to broadcasts. -/
def sent (ts : SimTrace Conn) (due : Option (SimOp Conn)) : List Bytes :=
  (ts.map Sigma.fst ++ due.toList).filterMap SimOp.buffer?

/-- What its broadcasts have left in the buffers. -/
def heard (ts : SimTrace Conn) : List Bytes :=
  ts.filterMap fun
    | ⟨.bcast _, data⟩ => some data
    | _ => none

/-- How its calls of `InterComm::connect` have ended. -/
def connects (ts : SimTrace Conn) : List (Except Fault Unit) :=
  ts.filterMap fun
    | ⟨.connect _, result⟩ => some (result.map (fun _ => ()))
    | _ => none

/-- The root of a broadcast keeps its buffer. -/
def Rooted (ts : SimTrace Conn) : Prop :=
  ∀ buf data, (⟨.bcast buf, data⟩ : Event (@SimOp.Resp Conn)) ∈ ts → data = buf

/-- What an operation does to the guarded fields: `lock` finds them as the last `unlock` left
    them. -/
def SimOp.step : (o : SimOp Conn) → ConnectionManager Conn → o.Resp → ConnectionManager Conn → Prop
  | .lock, cm, r, cm' => r = cm ∧ cm' = cm
  | .unlock c, _, _, cm' => cm' = c
  | _, cm, _, cm' => cm' = cm

/-- The guarded fields over a trace. -/
def Fields (cm : ConnectionManager Conn) : SimTrace Conn → ConnectionManager Conn → Prop
  | [], cm' => cm' = cm
  | ⟨o, r⟩ :: ts, cm' => ∃ c, o.step cm r c ∧ Fields c ts cm'

section Lists

variable {o : SimOp Conn} {r : o.Resp} {ts us : SimTrace Conn} {due : Option (SimOp Conn)}

theorem called_append : called (ts ++ us) due = called ts none ++ called us due := by
  simp [called]

theorem sent_append : sent (ts ++ us) due = sent ts none ++ sent us due := by
  simp [sent]

theorem heard_append : heard (ts ++ us) = heard ts ++ heard us :=
  List.filterMap_append

theorem connects_append : connects (ts ++ us) = connects ts ++ connects us :=
  List.filterMap_append

@[simp] theorem called_nil : called ([] : SimTrace Conn) none = [] := rfl

@[simp] theorem sent_nil : sent ([] : SimTrace Conn) none = [] := rfl

@[simp] theorem heard_nil : heard ([] : SimTrace Conn) = [] := rfl

@[simp] theorem connects_nil : connects ([] : SimTrace Conn) = [] := rfl

@[simp] theorem called_bcast (buf data : Bytes) :
    called (⟨.bcast buf, data⟩ :: ts) due = .bcast buf.length :: called ts due := rfl

@[simp] theorem sent_bcast (buf data : Bytes) :
    sent (⟨.bcast buf, data⟩ :: ts) due = buf :: sent ts due := rfl

@[simp] theorem heard_bcast (buf data : Bytes) :
    heard (⟨.bcast buf, data⟩ :: ts) = data :: heard ts := rfl

@[simp] theorem connects_bcast (buf data : Bytes) :
    connects (⟨.bcast buf, data⟩ :: ts) = connects ts := rfl

@[simp] theorem called_connect (host : StdString) (result : Except Fault Conn) :
    called (⟨.connect host, result⟩ :: ts) due = .connect host :: called ts due := rfl

@[simp] theorem sent_connect (host : StdString) (result : Except Fault Conn) :
    sent (⟨.connect host, result⟩ :: ts) due = sent ts due := rfl

@[simp] theorem heard_connect (host : StdString) (result : Except Fault Conn) :
    heard (⟨.connect host, result⟩ :: ts) = heard ts := rfl

@[simp] theorem connects_connect (host : StdString) (result : Except Fault Conn) :
    connects (⟨.connect host, result⟩ :: ts) = result.map (fun _ => ()) :: connects ts := rfl

@[simp] theorem called_due_bcast (buf : Bytes) :
    called ([] : SimTrace Conn) (some (.bcast buf)) = [.bcast buf.length] := rfl

@[simp] theorem sent_due_bcast (buf : Bytes) :
    sent ([] : SimTrace Conn) (some (.bcast buf)) = [buf] := rfl

@[simp] theorem called_due_connect (host : StdString) :
    called ([] : SimTrace Conn) (some (.connect host)) = [.connect host] := rfl

@[simp] theorem sent_due_connect (host : StdString) :
    sent ([] : SimTrace Conn) (some (.connect host)) = [] := rfl

theorem Rooted.tail (h : Rooted (⟨o, r⟩ :: ts)) : Rooted ts :=
  fun buf data hmem => h buf data (List.mem_cons_of_mem _ hmem)

theorem Rooted.heard (h : Rooted ts) : heard ts = sent ts none := by
  induction ts with
  | nil => rfl
  | cons e ts ih =>
      obtain ⟨o, r⟩ := e
      cases o with
      | bcast buf =>
          have hr := h buf r (List.mem_cons_self ..)
          rw [heard_bcast, sent_bcast, ih h.tail, hr]
      | _ => exact ih h.tail

/-- An operation that is no collective shows in none of these lists. -/
theorem lists_cons (ho : o.collective? = none) (r : o.Resp) (ts : SimTrace Conn)
    (due : Option (SimOp Conn)) :
    called (⟨o, r⟩ :: ts) due = called ts due ∧ sent (⟨o, r⟩ :: ts) due = sent ts due ∧
      heard (⟨o, r⟩ :: ts) = heard ts ∧ connects (⟨o, r⟩ :: ts) = connects ts := by
  cases o with
  | bcast | connect => exact absurd ho (by simp [SimOp.collective?])
  | _ => exact ⟨rfl, rfl, rfl, rfl⟩

theorem lists_due (ho : o.collective? = none) :
    called ([] : SimTrace Conn) (some o) = [] ∧ sent ([] : SimTrace Conn) (some o) = [] := by
  cases o with
  | bcast | connect => exact absurd ho (by simp [SimOp.collective?])
  | _ => exact ⟨rfl, rfl⟩

end Lists

/-! ## Lockstep -/

variable {α β α' β' : Type}

/-- A program that calls no collective. -/
def Quiet : SimProg Conn α → Prop
  | .ret _ => True
  | .vis o k => o.collective? = none ∧ ∀ r, Quiet (k r)

/-- Rank 0 with the fields `cm₀` and the rest `p₀` of its program and another rank with `cm` and `p`
    are in lockstep: they connect to hosts that satisfy `good`, and end in results and fields that
    are related by `R`. If one crashes, no collective is left for the other; whether the other rank
    may crash is `lax`. -/
inductive Lockstep (lax : Prop) (good : StdString → Prop)
    (R : α → ConnectionManager Conn → β → ConnectionManager Conn → Prop) :
    ConnectionManager Conn → SimProg Conn α → ConnectionManager Conn → SimProg Conn β → Prop
  | ret {a : α} {b : β} {cm₀ cm : ConnectionManager Conn} (h : R a cm₀ b cm) :
      Lockstep lax good R cm₀ (.ret a) cm (.ret b)
  | root {cm₀ cm : ConnectionManager Conn} {o : SimOp Conn} {k : o.Resp → SimProg Conn α}
      {p : SimProg Conn β} (ho : o.collective? = none) (hresp : Nonempty o.Resp)
      (h : ∀ r cm₀', o.step cm₀ r cm₀' → Lockstep lax good R cm₀' (k r) cm p) :
      Lockstep lax good R cm₀ (.vis o k) cm p
  | rank {cm₀ cm : ConnectionManager Conn} {o : SimOp Conn} {k : o.Resp → SimProg Conn β}
      {p₀ : SimProg Conn α} (ho : o.collective? = none) (hresp : Nonempty o.Resp)
      (h : ∀ r cm', o.step cm r cm' → Lockstep lax good R cm₀ p₀ cm' (k r)) :
      Lockstep lax good R cm₀ p₀ cm (.vis o k)
  | root_crashed {cm₀ cm : ConnectionManager Conn} {k : Empty → SimProg Conn α}
      {p : SimProg Conn β} (hquiet : Quiet p) : Lockstep lax good R cm₀ (.vis .crash k) cm p
  | rank_crashed {cm₀ cm : ConnectionManager Conn} {k : Empty → SimProg Conn β}
      {p₀ : SimProg Conn α} (hlax : lax) (hquiet : Quiet p₀) :
      Lockstep lax good R cm₀ p₀ cm (.vis .crash k)
  | bcast {cm₀ cm : ConnectionManager Conn} {buf₀ buf : Bytes} {k₀ : Bytes → SimProg Conn α}
      {k : Bytes → SimProg Conn β} (hlen : buf.length = buf₀.length)
      (h : Lockstep lax good R cm₀ (k₀ buf₀) cm (k buf₀)) :
      Lockstep lax good R cm₀ (.vis (.bcast buf₀) k₀) cm (.vis (.bcast buf) k)
  | connect {cm₀ cm : ConnectionManager Conn} {host : StdString}
      {k₀ : Except Fault Conn → SimProg Conn α} {k : Except Fault Conn → SimProg Conn β}
      (hgood : good host)
      (h : ∀ r₀ r, r.map (fun _ => ()) = r₀.map (fun _ => ()) →
        Lockstep lax good R cm₀ (k₀ r₀) cm (k r)) :
      Lockstep lax good R cm₀ (.vis (.connect host) k₀) cm (.vis (.connect host) k)

/-- Whether an operation is neither a collective nor one on the mutex, and answered. -/
def SimOp.isLocal : SimOp Conn → Bool
  | .lock | .unlock _ | .bcast _ | .connect _ | .crash => false
  | _ => true

theorem SimOp.collective?_of_isLocal {o : SimOp Conn} (ho : o.isLocal = true) :
    o.collective? = none := by
  cases o <;> first | rfl | exact absurd ho (by simp [SimOp.isLocal])

theorem SimOp.step_of_isLocal {o : SimOp Conn} (ho : o.isLocal = true)
    {c c' : ConnectionManager Conn} {r : o.Resp} (h : o.step c r c') : c' = c := by
  cases o <;> first | exact h | exact absurd ho (by simp [SimOp.isLocal])

theorem SimOp.resp_of_isLocal {o : SimOp Conn} (ho : o.isLocal = true) : Nonempty o.Resp := by
  cases o with
  | lock | unlock | bcast | connect | crash => exact absurd ho (by simp [SimOp.isLocal])
  | joinable => exact ⟨false⟩
  | probe => exact ⟨false⟩
  | probeAll => exact ⟨(0 : ℕ)⟩
  | recv => exact ⟨([] : Bytes)⟩
  | _ => exact ⟨()⟩

theorem SimOp.exists_step {o : SimOp Conn} (ho : o.collective? = none) (hresp : Nonempty o.Resp)
    (cm : ConnectionManager Conn) : ∃ r cm', o.step cm r cm' := by
  obtain ⟨r⟩ := hresp
  cases o with
  | lock => exact ⟨cm, cm, rfl, rfl⟩
  | unlock c => exact ⟨(), c, rfl⟩
  | bcast | connect => exact absurd ho (by simp [SimOp.collective?])
  | crash => exact r.elim
  | _ => exact ⟨r, cm, rfl⟩

/-- A program whose operations concern one rank only, with what holds of its result. -/
def Local (Q : α → Prop) : SimProg Conn α → Prop
  | .ret a => Q a
  | .vis o k => o.isLocal = true ∧ ∀ r, Local Q (k r)

section Rules

variable {lax : Prop} {good : StdString → Prop}
  {R : α → ConnectionManager Conn → β → ConnectionManager Conn → Prop}
  {R' : α' → ConnectionManager Conn → β' → ConnectionManager Conn → Prop}
  {cm₀ cm : ConnectionManager Conn} {p₀ : SimProg Conn α} {p : SimProg Conn β}

theorem Local.bind {Q : α → Prop} {Q' : α' → Prop} {p : SimProg Conn α} {f : α → SimProg Conn α'}
    (h : Local Q p) (hf : ∀ a, Q a → Local Q' (f a)) : Local Q' (p >>= f) := by
  induction p with
  | ret a => exact hf a h
  | vis o k ih => exact ⟨h.1, fun r => ih r (h.2 r)⟩

theorem Local.quiet {Q : α → Prop} {p : SimProg Conn α} (h : Local Q p) : Quiet p := by
  induction p with
  | ret a => trivial
  | vis o k ih => exact ⟨SimOp.collective?_of_isLocal h.1, fun r => ih r (h.2 r)⟩

theorem Quiet.bind {p : SimProg Conn α} {f : α → SimProg Conn α'} (h : Quiet p)
    (hf : ∀ a, Quiet (f a)) : Quiet (p >>= f) := by
  induction p with
  | ret a => exact hf a
  | vis o k ih => exact ⟨h.1, fun r => ih r (h.2 r)⟩

/-- One part after the other, where the second calls no collective. -/
theorem Lockstep.bind {f₀ : α → SimProg Conn α'} {f : β → SimProg Conn β'}
    (h : Lockstep lax good R cm₀ p₀ cm p) (hf₀ : ∀ a, Quiet (f₀ a)) (hquiet : ∀ b, Quiet (f b))
    (hf : ∀ a cm₀ b cm, R a cm₀ b cm → Lockstep lax good R' cm₀ (f₀ a) cm (f b)) :
    Lockstep lax good R' cm₀ (p₀ >>= f₀) cm (p >>= f) := by
  induction h with
  | ret h => exact hf _ _ _ _ h
  | root ho hresp _ ih => exact .root ho hresp ih
  | rank ho hresp _ ih => exact .rank ho hresp ih
  | root_crashed hp => exact .root_crashed (hp.bind hquiet)
  | rank_crashed hlax hp₀ => exact .rank_crashed hlax (hp₀.bind hf₀)
  | bcast hlen _ ih => exact .bcast hlen ih
  | connect hgood _ ih => exact .connect hgood ih

/-- Rank 0 is on its own first. -/
theorem Lockstep.root_bind {Q₀ : α → Prop} {f₀ : α → SimProg Conn α'} {p : SimProg Conn β'}
    (h₀ : Local Q₀ p₀) (hf : ∀ a, Q₀ a → Lockstep lax good R' cm₀ (f₀ a) cm p) :
    Lockstep lax good R' cm₀ (p₀ >>= f₀) cm p := by
  induction p₀ with
  | ret a => exact hf a h₀
  | vis o k ih =>
      refine .root (SimOp.collective?_of_isLocal h₀.1) (SimOp.resp_of_isLocal h₀.1)
        (fun r cm₀' hstep => ?_)
      obtain rfl := SimOp.step_of_isLocal h₀.1 hstep
      exact ih r (h₀.2 r)

/-- The other rank is on its own first. -/
theorem Lockstep.rank_bind {Q : β → Prop} {f : β → SimProg Conn β'} {p₀ : SimProg Conn α'}
    (h : Local Q p) (hf : ∀ b, Q b → Lockstep lax good R' cm₀ p₀ cm (f b)) :
    Lockstep lax good R' cm₀ p₀ cm (p >>= f) := by
  induction p with
  | ret b => exact hf b h
  | vis o k ih =>
      refine .rank (SimOp.collective?_of_isLocal h.1) (SimOp.resp_of_isLocal h.1)
        (fun r cm' hstep => ?_)
      obtain rfl := SimOp.step_of_isLocal h.1 hstep
      exact ih r (h.2 r)

theorem Lockstep.of_local {Q₀ : α → Prop} {Q : β → Prop} (h₀ : Local Q₀ p₀) (h : Local Q p)
    (hR : ∀ a b, Q₀ a → Q b → R a cm₀ b cm) : Lockstep lax good R cm₀ p₀ cm p := by
  have hboth : Lockstep lax good R cm₀ (p₀ >>= .ret) cm (p >>= .ret) :=
    .root_bind h₀ (fun a ha => .rank_bind h (fun b hb => .ret (hR a b ha hb)))
  rwa [bind_ret, bind_ret] at hboth

end Rules

/-! ## Runs in lockstep -/

section Runs

variable {lax : Prop} {good : StdString → Prop}
  {R : α → ConnectionManager Conn → β → ConnectionManager Conn → Prop}
  {cm₀ cm cm₀' cm' : ConnectionManager Conn} {p₀ q₀ : SimProg Conn α} {p q : SimProg Conn β}
  {ts₀ ts : SimTrace Conn}

theorem Quiet.called_steps (h : Quiet p₀) (h₀ : Steps p₀ ts₀ q₀) : called ts₀ q₀.due? = [] := by
  induction h₀ with
  | refl p =>
      cases p with
      | ret a => rfl
      | vis o k => exact (lists_due h.1).1
  | vis r _ ih =>
      rw [(lists_cons h.1 r _ _).1]
      exact ih (h.2 r)

/-- Rank 0 connects to good hosts only. -/
theorem Lockstep.good_root (h : Lockstep lax good R cm₀ p₀ cm p) (h₀ : Steps p₀ ts₀ q₀)
    (hf₀ : Fields cm₀ ts₀ cm₀') (hroot : Rooted ts₀) (host : StdString)
    (hmem : .connect host ∈ called ts₀ q₀.due?) : good host := by
  induction h generalizing ts₀ with
  | ret =>
      cases h₀
      exact absurd hmem List.not_mem_nil
  | root ho _ _ ih =>
      cases h₀ with
      | refl =>
          rw [due?, (lists_due ho).1] at hmem
          exact absurd hmem List.not_mem_nil
      | vis r hsteps =>
          obtain ⟨c, hstep, hf₀⟩ := hf₀
          rw [(lists_cons ho r _ _).1] at hmem
          exact ih r c hstep hsteps hf₀ hroot.tail hmem
  | @rank _ cm _ _ _ ho hresp _ ih =>
      -- rank 0 does not notice what the other rank is answered, so any answer will do
      obtain ⟨r, cm', hstep⟩ := SimOp.exists_step ho hresp cm
      exact ih r cm' hstep h₀ hf₀ hroot hmem
  | root_crashed =>
      cases h₀ with
      | refl => exact absurd hmem List.not_mem_nil
      | vis r => exact r.elim
  | rank_crashed _ hquiet =>
      rw [hquiet.called_steps h₀] at hmem
      exact absurd hmem List.not_mem_nil
  | bcast _ _ ih =>
      cases h₀ with
      | refl => exact absurd hmem (by simp [due?])
      | vis r hsteps =>
          have hr := hroot _ _ (List.mem_cons_self ..)
          rw [hr] at hsteps
          obtain ⟨c, rfl, hf₀⟩ := hf₀
          exact ih hsteps hf₀ hroot.tail (by simpa using hmem)
  | connect hgood _ ih =>
      cases h₀ with
      | refl =>
          obtain rfl : host = _ := by simpa [due?] using hmem
          exact hgood
      | vis r hsteps =>
          obtain ⟨c, rfl, hf₀⟩ := hf₀
          rw [called_connect, List.mem_cons] at hmem
          rcases hmem with heq | hmem
          · rwa [Collective.connect.inj heq]
          · exact ih r r rfl hsteps hf₀ hroot.tail hmem

/-- Rank 0 ends as it would beside a rank that does not crash. -/
theorem Lockstep.ends_root (h : Lockstep False good R cm₀ p₀ cm p) {a : α}
    (h₀ : Steps p₀ ts₀ (.ret a)) (hf₀ : Fields cm₀ ts₀ cm₀') (hroot : Rooted ts₀) :
    ∃ b cm', R a cm₀' b cm' := by
  induction h generalizing ts₀ with
  | ret hR =>
      cases h₀
      obtain rfl := hf₀
      exact ⟨_, _, hR⟩
  | root ho _ _ ih =>
      cases h₀ with
      | vis r hsteps =>
          obtain ⟨c, hstep, hf₀⟩ := hf₀
          exact ih r c hstep hsteps hf₀ hroot.tail
  | @rank _ cm _ _ _ ho hresp _ ih =>
      obtain ⟨r, cm', hstep⟩ := SimOp.exists_step ho hresp cm
      exact ih r cm' hstep h₀ hf₀ hroot
  | root_crashed =>
      cases h₀ with
      | vis r => exact r.elim
  | rank_crashed hlax => exact hlax.elim
  | bcast _ _ ih =>
      cases h₀ with
      | vis r hsteps =>
          have hr := hroot _ _ (List.mem_cons_self ..)
          rw [hr] at hsteps
          obtain ⟨c, rfl, hf₀⟩ := hf₀
          exact ih hsteps hf₀ hroot.tail
  | connect _ _ ih =>
      cases h₀ with
      | vis r hsteps =>
          obtain ⟨c, rfl, hf₀⟩ := hf₀
          exact ih r r rfl hsteps hf₀ hroot.tail

/-- The other rank connects to good hosts only, if it is given what rank 0 sends. What rank 0 sends
    after its run is `later`. -/
theorem Lockstep.good_rank (h : Lockstep lax good R cm₀ p₀ cm p) (h₀ : Steps p₀ ts₀ q₀)
    (hp : Steps p ts q) (hf₀ : Fields cm₀ ts₀ cm₀') (hf : Fields cm ts cm') (hroot : Rooted ts₀)
    {later : List Bytes} (hlast : q₀.result? = none → later = [])
    (hbcast : heard ts <+: sent ts₀ q₀.due? ++ later)
    (hconnect : Compatible (connects ts) (connects ts₀)) (host : StdString)
    (hmem : .connect host ∈ called ts q.due?) : good host := by
  induction h generalizing ts₀ ts q₀ later cm₀' with
  | ret =>
      cases hp
      exact absurd hmem List.not_mem_nil
  | @root cm₀ _ _ _ _ ho hresp _ ih =>
      cases h₀ with
      | refl =>
          obtain rfl := hlast rfl
          rw [due?, (lists_due ho).2, List.append_nil, List.prefix_nil] at hbcast
          -- rank 0 stands still and sends no more, so it may be taken on by any answer
          obtain ⟨r, c, hstep⟩ := SimOp.exists_step ho hresp cm₀
          exact ih r c hstep (.refl _) hp rfl hf hroot (fun _ => rfl) (by simp [hbcast]) hconnect
            hmem
      | vis r hsteps =>
          obtain ⟨c, hstep, hf₀⟩ := hf₀
          obtain ⟨-, hsent, -, hconn⟩ := lists_cons ho r _ q₀.due?
          rw [hsent] at hbcast
          rw [hconn] at hconnect
          exact ih r c hstep hsteps hp hf₀ hf hroot.tail hlast hbcast hconnect hmem
  | rank ho _ _ ih =>
      cases hp with
      | refl =>
          rw [due?, (lists_due ho).1] at hmem
          exact absurd hmem List.not_mem_nil
      | vis r hsteps =>
          obtain ⟨c, hstep, hf⟩ := hf
          obtain ⟨hcalled, -, hheard, hconn⟩ := lists_cons ho r _ q.due?
          rw [hcalled] at hmem
          rw [hheard] at hbcast
          rw [hconn] at hconnect
          exact ih r c hstep h₀ hsteps hf₀ hf hroot hlast hbcast hconnect hmem
  | root_crashed hquiet =>
      rw [hquiet.called_steps hp] at hmem
      exact absurd hmem List.not_mem_nil
  | rank_crashed =>
      cases hp with
      | refl => exact absurd hmem List.not_mem_nil
      | vis r => exact r.elim
  | bcast _ _ ih =>
      cases hp with
      | refl => exact absurd hmem (by simp [due?])
      | vis data hsteps =>
          obtain ⟨c, rfl, hf⟩ := hf
          rw [called_bcast, List.mem_cons] at hmem
          replace hmem := hmem.resolve_left (by simp)
          cases h₀ with
          | refl =>
              obtain rfl := hlast rfl
              rw [heard_bcast, due?, sent_due_bcast, List.append_nil, List.cons_prefix_cons,
                List.prefix_nil] at hbcast
              -- the rank has been given what rank 0 is due to send
              obtain ⟨rfl, hrest⟩ := hbcast
              exact ih (.refl _) hsteps rfl hf hroot (fun _ => rfl) (by simp [hrest]) hconnect hmem
          | vis data₀ hsteps₀ =>
              have hdata := hroot _ _ (List.mem_cons_self ..)
              rw [hdata] at hsteps₀
              obtain ⟨c₀, rfl, hf₀⟩ := hf₀
              rw [heard_bcast, sent_bcast, List.cons_append, List.cons_prefix_cons] at hbcast
              obtain ⟨rfl, hrest⟩ := hbcast
              exact ih hsteps₀ hsteps hf₀ hf hroot.tail hlast hrest hconnect hmem
  | connect hgood _ ih =>
      cases hp with
      | refl =>
          obtain rfl : host = _ := by simpa [due?] using hmem
          exact hgood
      | vis r hsteps =>
          obtain ⟨c, rfl, hf⟩ := hf
          rw [called_connect, List.mem_cons] at hmem
          rcases hmem with heq | hmem
          · rwa [Collective.connect.inj heq]
          · cases h₀ with
            | refl =>
                obtain rfl := hlast rfl
                rw [heard_connect, due?, sent_due_connect, List.append_nil, List.prefix_nil]
                  at hbcast
                exact ih r r rfl (.refl _) hsteps rfl hf hroot (fun _ => rfl) (by simp [hbcast])
                  .nil_right hmem
            | vis r₀ hsteps₀ =>
                obtain ⟨c₀, rfl, hf₀⟩ := hf₀
                obtain ⟨hsame, hrest⟩ := Compatible.cons_iff.1 hconnect
                exact ih r₀ r hsame hsteps₀ hsteps hf₀ hf hroot.tail hlast hbcast hrest hmem

/-- Either both have ended, in results that are related and with the same collectives, or the
    collectives of the one start those of the other, whatever it calls when it has ended. What comes
    after the runs is `later₀` and `later`. -/
theorem Lockstep.compare (h : Lockstep lax good R cm₀ p₀ cm p) (h₀ : Steps p₀ ts₀ q₀)
    (hp : Steps p ts q) (hf₀ : Fields cm₀ ts₀ cm₀') (hf : Fields cm ts cm') (hroot : Rooted ts₀)
    {later₀ later : List Bytes} {conns₀ conns : List (Except Fault Unit)}
    (hlast : q₀.result? = none → later₀ = [])
    (hbcast : heard ts ++ later <+: sent ts₀ q₀.due? ++ later₀)
    (hconnect : Compatible (connects ts ++ conns) (connects ts₀ ++ conns₀)) :
    (∃ a b, (q₀ = .ret a ∧ q = .ret b ∧ R a cm₀' b cm') ∧ called ts none = called ts₀ none ∧
      heard ts = sent ts₀ none ∧ later <+: later₀ ∧ Compatible conns conns₀) ∨
    (q₀.result? = none ∨ q.result? = none) ∧ (q.result? ≠ none → later = []) ∧
      ∀ cs₀ cs, (q₀.result? = none → cs₀ = []) → (q.result? = none → cs = []) →
        Compatible (called ts q.due? ++ cs) (called ts₀ q₀.due? ++ cs₀) := by
  induction h generalizing ts₀ ts cm₀' cm' with
  | ret hR =>
      cases h₀
      cases hp
      obtain rfl := hf₀
      obtain rfl := hf
      exact .inl ⟨_, _, ⟨rfl, rfl, hR⟩, rfl, rfl, hbcast, hconnect⟩
  | root ho _ _ ih =>
      cases h₀ with
      | refl =>
          obtain rfl := hlast rfl
          rw [due?, (lists_due ho).2, List.append_nil, List.prefix_nil, List.append_eq_nil_iff]
            at hbcast
          -- rank 0 stands still: its collectives so far start any that come after
          refine .inr ⟨.inl rfl, fun _ => hbcast.2, fun cs₀ cs hcs₀ _ => ?_⟩
          rw [due?, (lists_due ho).1, hcs₀ rfl]
          exact .nil_right
      | vis r hsteps =>
          obtain ⟨c, hstep, hf₀⟩ := hf₀
          obtain ⟨hcalled, hsent, -, hconn⟩ := lists_cons ho r _ q₀.due?
          obtain ⟨hcalled', hsent', -⟩ := lists_cons ho r _ none
          rw [hsent] at hbcast
          rw [hconn] at hconnect
          rw [hcalled, hcalled', hsent']
          exact ih r c hstep hsteps hp hf₀ hf hroot.tail hbcast hconnect
  | rank ho _ _ ih =>
      cases hp with
      | refl =>
          -- the same holds of the other rank where that stands still
          refine .inr ⟨.inr rfl, fun hne => absurd rfl hne, fun cs₀ cs _ hcs => ?_⟩
          rw [due?, (lists_due ho).1, hcs rfl]
          exact .nil_left
      | vis r hsteps =>
          obtain ⟨c, hstep, hf⟩ := hf
          obtain ⟨hcalled, -, hheard, hconn⟩ := lists_cons ho r _ q.due?
          obtain ⟨hcalled', -⟩ := lists_cons ho r _ none
          rw [hheard] at hbcast
          rw [hconn] at hconnect
          rw [hcalled, hcalled', hheard]
          exact ih r c hstep h₀ hsteps hf₀ hf hroot hbcast hconnect
  | root_crashed hquiet =>
      cases h₀ with
      | refl =>
          obtain rfl := hlast rfl
          have hnone : heard ts ++ later = [] := List.prefix_nil.1 hbcast
          refine .inr ⟨.inl rfl, fun _ => (List.append_eq_nil_iff.1 hnone).2,
            fun cs₀ cs hcs₀ _ => ?_⟩
          rw [hcs₀ rfl]
          exact .nil_right
      | vis r => exact r.elim
  | rank_crashed =>
      cases hp with
      | refl =>
          refine .inr ⟨.inr rfl, fun hne => absurd rfl hne, fun cs₀ cs _ hcs => ?_⟩
          rw [hcs rfl]
          exact .nil_left
      | vis r => exact r.elim
  | bcast hlen _ ih =>
      cases hp with
      | refl =>
          refine .inr ⟨.inr rfl, fun hne => absurd rfl hne, fun cs₀ cs _ hcs => ?_⟩
          -- the rank is due to broadcast as many bytes as rank 0
          rw [due?, called_due_bcast, hcs rfl, hlen]
          cases h₀ with
          | refl => exact Compatible.cons_iff.2 ⟨rfl, .nil_left⟩
          | vis data₀ => exact Compatible.cons_iff.2 ⟨rfl, .nil_left⟩
      | vis data hsteps =>
          obtain ⟨c, rfl, hf⟩ := hf
          cases h₀ with
          | refl =>
              obtain rfl := hlast rfl
              rw [heard_bcast, due?, sent_due_bcast, List.append_nil, List.cons_append,
                List.cons_prefix_cons, List.prefix_nil, List.append_eq_nil_iff] at hbcast
              -- it has been given what rank 0 is due to send
              refine .inr ⟨.inl rfl, fun _ => hbcast.2.2, fun cs₀ cs hcs₀ _ => ?_⟩
              rw [due?, called_due_bcast, hcs₀ rfl, called_bcast, hlen]
              exact Compatible.cons_iff.2 ⟨rfl, .nil_right⟩
          | vis data₀ hsteps₀ =>
              -- the broadcast is behind both, and both go on with what rank 0 has sent
              have hdata := hroot _ _ (List.mem_cons_self ..)
              rw [hdata] at hsteps₀
              obtain ⟨c₀, rfl, hf₀⟩ := hf₀
              rw [heard_bcast, sent_bcast, List.cons_append, List.cons_append,
                List.cons_prefix_cons] at hbcast
              obtain ⟨rfl, hrest⟩ := hbcast
              rcases ih hsteps₀ hsteps hf₀ hf hroot.tail hrest hconnect with
                ⟨a, b, hab, hcalled, hheard, hlater⟩ | ⟨hends, hlater, hcompat⟩
              · refine .inl ⟨a, b, hab, ?_, ?_, hlater⟩
                · rw [called_bcast, called_bcast, hlen, hcalled]
                · rw [heard_bcast, sent_bcast, hheard]
              · refine .inr ⟨hends, hlater, fun cs₀ cs hcs₀ hcs => ?_⟩
                rw [called_bcast, called_bcast, hlen]
                exact Compatible.cons_iff.2 ⟨rfl, hcompat cs₀ cs hcs₀ hcs⟩
  | connect _ _ ih =>
      cases hp with
      | refl =>
          refine .inr ⟨.inr rfl, fun hne => absurd rfl hne, fun cs₀ cs _ hcs => ?_⟩
          -- the rank is due to connect to the same host as rank 0
          rw [due?, called_due_connect, hcs rfl]
          cases h₀ with
          | refl => exact Compatible.cons_iff.2 ⟨rfl, .nil_left⟩
          | vis r₀ => exact Compatible.cons_iff.2 ⟨rfl, .nil_left⟩
      | vis r hsteps =>
          obtain ⟨c, rfl, hf⟩ := hf
          cases h₀ with
          | refl =>
              obtain rfl := hlast rfl
              rw [heard_connect, due?, sent_due_connect, List.append_nil, List.prefix_nil,
                List.append_eq_nil_iff] at hbcast
              refine .inr ⟨.inl rfl, fun _ => hbcast.2, fun cs₀ cs hcs₀ _ => ?_⟩
              rw [due?, called_due_connect, hcs₀ rfl, called_connect]
              exact Compatible.cons_iff.2 ⟨rfl, .nil_right⟩
          | vis r₀ hsteps₀ =>
              obtain ⟨c₀, rfl, hf₀⟩ := hf₀
              obtain ⟨hsame, hrest⟩ := Compatible.cons_iff.1 hconnect
              rcases ih r₀ r hsame hsteps₀ hsteps hf₀ hf hroot.tail hbcast hrest with
                ⟨a, b, hab, hcalled, hheard⟩ | ⟨hends, hlater, hcompat⟩
              · refine .inl ⟨a, b, hab, ?_, hheard⟩
                rw [called_connect, called_connect, hcalled]
              · refine .inr ⟨hends, hlater, fun cs₀ cs hcs₀ hcs => ?_⟩
                rw [called_connect, called_connect]
                exact Compatible.cons_iff.2 ⟨rfl, hcompat cs₀ cs hcs₀ hcs⟩

end Runs

end Traces

end LibIS
