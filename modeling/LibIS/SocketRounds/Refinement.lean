import LibIS.SocketRounds.Messages
import LibIS.SocketRounds.Transfers

set_option autoImplicit false

/-! # Rounds of queries over sockets: the refinement

What the ranks do system call by system call, they could do message by message. The message-level
ranks run ahead of the ones over sockets in two ways: a simulation rank counts as having sent all it
is about to send (it need not wait for anything before), and a client rank as having received the
empty messages it is about to receive. A client rank has sent a message when it has written the
first byte of it, which is when the simulation rank finds the socket readable.

A system call is matched by some steps message by message, or by none: then there are fewer bytes
left to transfer (`ComesOn`). -/

open ByteCodec Prog ThreadSystem Channel

namespace LibIS

namespace SocketRounds

open QueryRound (Party Setup Snapshots Message Move Reached ClientLabel castCalls)

/-! ## The relation -/

/-- How far the transfers are: what each rank still has to write, to whom, and what it has read of
    the messages it receives. -/
structure Underway where
  simOwed : ℕ → List (ℕ × Bytes)
  simGot : ℕ → ℕ → Bytes
  clientOwed : ℕ → List (ℕ × Bytes)
  clientGot : ℕ → ℕ → Bytes

/-- The sockets carry the messages, and all else is the same. -/
structure Links (u : Underway) (w : QueryRound.World) (w' : World) : Prop where
  down : Carrying Message.data w'.down w.down u.simOwed u.clientGot
  up : Carrying Message.data w'.up w.up u.clientOwed u.simGot
  manager : w'.manager = w.manager
  simCast : w'.simCast = w.simCast
  simHeard : w'.simHeard = w.simHeard
  clientCast : w'.clientCast = w.clientCast
  clientHeard : w'.clientHeard = w.clientHeard
  arrived : w'.arrived = w.arrived

/-- Of what a client rank has sent, some has been written of each message, and it is writing to one
    rank at a time. -/
structure Begun (u : Underway) : Prop where
  started : ∀ c s, (owedTo (u.clientOwed c) s).length < 4
  single : ∀ c, ∃ rank, ∀ s, s ≠ rank → owedTo (u.clientOwed c) s = []

theorem Begun.of_eq {u u₁ : Underway} (h : Begun u) (heq : u₁.clientOwed = u.clientOwed) :
    Begun u₁ where
  started := by
    rw [heq]
    exact h.started
  single := by
    rw [heq]
    exact h.single

theorem Begun.update {u : Underway} (h : Begun u) (c rank : ℕ) {owed : List (ℕ × Bytes)}
    (howed : (owedTo owed rank).length < 4) (hothers : ∀ s, s ≠ rank → owedTo owed s = [])
    {got : ℕ → ℕ → Bytes} :
    Begun { u with clientOwed := Function.update u.clientOwed c owed, clientGot := got } where
  started c' s := by
    by_cases hc : c' = c
    · simp only [hc, Function.update_self]
      by_cases hs : s = rank
      · rw [hs]
        exact howed
      · rw [hothers s hs]
        exact Nat.succ_pos 3
    · simp only [Function.update_of_ne hc]
      exact h.started c' s
  single c' := by
    by_cases hc : c' = c
    · simp only [hc, Function.update_self]
      exact ⟨rank, hothers⟩
    · simp only [Function.update_of_ne hc]
      exact h.single c'

/-- A client rank that is writing to one rank owes the others nothing. -/
theorem Begun.others {u : Underway} (h : Begun u) {c rank : ℕ} {data : Bytes}
    {more : List (ℕ × Bytes)} (hne : data ≠ [])
    (howed : ∀ j, owedTo (u.clientOwed c) j = owedTo ((rank, data) :: more) j) {s : ℕ}
    (hs : s ≠ rank) : owedTo (u.clientOwed c) s = [] := by
  obtain ⟨rank', hsingle⟩ := h.single c
  by_cases hrank : rank = rank'
  · exact hsingle s (hrank ▸ hs)
  · have hnil := hsingle rank hrank
    rw [howed, owedTo_cons, if_pos rfl] at hnil
    exact absurd (List.append_eq_nil_iff.1 hnil).1 hne

variable {X : Setup}

/-- The configuration `cfg'` over sockets stands for the message-level configuration `cfg`. -/
structure Refines (u : Underway) (cfg : (QueryRound.system X.M X.N X.snaps).Config)
    (cfg' : (system X.M X.N X.snaps).Config) : Prop where
  reached : Reached X cfg
  links : Links u cfg.shared cfg'.shared
  sims : ∀ s : Fin X.M, Amid simTransport (cfg.control (.sim s)) (u.simOwed s) (u.simGot s)
    (cfg'.control (.sim s))
  clients : ∀ c : Fin X.N, Amid clientTransport (cfg.control (.client c)) (u.clientOwed c)
    (u.clientGot c) (cfg'.control (.client c))

/-- A simulation rank that is not about to send, and a client rank that is not about to receive an
    empty message. -/
def Settled : (p : Party X.M X.N) → Prog ((QueryRound.system X.M X.N X.snaps).Resp p)
    ((QueryRound.system X.M X.N X.snaps).Label p) → Prop
  | .sim _ => fun q => ∀ comm kind data rank k, q ≠ vis (.send comm kind data rank) k
  | .client _ => fun q => ∀ comm kind rank k, q ≠ vis (.recv comm kind 0 rank) k

/-! ## Coming on -/

/-- How much each rank transfers at least, before it goes on message by message. -/
def left (u : Underway) (cfg : (QueryRound.system X.M X.N X.snaps).Config) : Party X.M X.N → ℕ
  | .sim s => simTransport.left (cfg.control (.sim s)) (u.simOwed s) (u.simGot s)
  | .client c => clientTransport.left (cfg.control (.client c)) (u.clientOwed c) (u.clientGot c)

/-- Message by message, the ranks have moved, or a transfer has come on. -/
def ComesOn (X : Setup) (T K : ℕ) (u : Underway)
    (cfg : (QueryRound.system X.M X.N X.snaps).Config) (u₁ : Underway)
    (cfg₁ : (QueryRound.system X.M X.N X.snaps).Config) : Prop :=
  Relation.TransGen (Move X T K) cfg cfg₁ ∨ (cfg₁ = cfg ∧ left u₁ cfg < left u cfg)

/-- Message by message, the ranks have moved, or nothing has changed. -/
def MovesOn (X : Setup) (T K : ℕ) (u : Underway)
    (cfg : (QueryRound.system X.M X.N X.snaps).Config) (u₁ : Underway)
    (cfg₁ : (QueryRound.system X.M X.N X.snaps).Config) : Prop :=
  Relation.TransGen (Move X T K) cfg cfg₁ ∨ (u₁ = u ∧ cfg₁ = cfg)

/-- The calls in which rank 0 has found no command. -/
def World.vainCalls (w : World) : ℕ :=
  (castCalls w.simCast).count .idle

/-- Rank 0 finds no command in at most `K` calls. -/
def patientPoll (K : ℕ) : (o : SocketOp (SimOp Unit)) → World → SimResp o → Prop
  | .call (.probe _ _), w, found => found = true ∨ w.vainCalls < K
  | _, _, _ => True

variable {u : Underway} {cfg : (QueryRound.system X.M X.N X.snaps).Config}
  {cfg' : (system X.M X.N X.snaps).Config}

theorem MovesOn.head {T K : ℕ} {u₁ u₂ : Underway}
    {cfg₁ cfg₂ : (QueryRound.system X.M X.N X.snaps).Config} (h : MovesOn X T K u₁ cfg₁ u₂ cfg₂)
    (hmove : Move X T K cfg cfg₁) : MovesOn X T K u cfg u₂ cfg₂ := by
  rcases h with hmoves | ⟨-, rfl⟩
  · exact .inl (.head hmove hmoves)
  · exact .inl (.single hmove)

theorem ComesOn.moves {T K : ℕ} {u₁ u₂ : Underway}
    {cfg₁ cfg₂ : (QueryRound.system X.M X.N X.snaps).Config} (h : ComesOn X T K u cfg u₁ cfg₁)
    (h' : MovesOn X T K u₁ cfg₁ u₂ cfg₂) : ComesOn X T K u cfg u₂ cfg₂ := by
  rcases h' with hmoves' | ⟨rfl, rfl⟩
  · rcases h with hmoves | ⟨rfl, -⟩
    · exact .inl (hmoves.trans hmoves')
    · exact .inl hmoves'
  · exact h

theorem left_sim_lt {s : Fin X.M} {owed : List (ℕ × Bytes)} {got : ℕ → Bytes}
    (h : simTransport.left (cfg.control (.sim s)) owed got <
      simTransport.left (cfg.control (.sim s)) (u.simOwed s) (u.simGot s)) :
    left { u with
      simOwed := Function.update u.simOwed s owed
      simGot := Function.update u.simGot s got } cfg < left u cfg := by
  refine Pi.lt_def.2 ⟨fun p => ?_, .sim s, ?_⟩
  · cases p with
    | sim s' =>
        by_cases hs : s' = s
        · subst hs
          simp only [left, Function.update_self]
          exact h.le
        · have hne : (s' : ℕ) ≠ s := fun heq => hs (Fin.ext heq)
          simp only [left, Function.update_of_ne hne, le_refl]
    | client c => exact le_refl _
  · simp only [left, Function.update_self]
    exact h

theorem left_client_lt {c : Fin X.N} {owed : List (ℕ × Bytes)} {got : ℕ → Bytes}
    (h : clientTransport.left (cfg.control (.client c)) owed got <
      clientTransport.left (cfg.control (.client c)) (u.clientOwed c) (u.clientGot c)) :
    left { u with
      clientOwed := Function.update u.clientOwed c owed
      clientGot := Function.update u.clientGot c got } cfg < left u cfg := by
  refine Pi.lt_def.2 ⟨fun p => ?_, .client c, ?_⟩
  · cases p with
    | sim s => exact le_refl _
    | client c' =>
        by_cases hc : c' = c
        · subst hc
          simp only [left, Function.update_self]
          exact h.le
        · have hne : (c' : ℕ) ≠ c := fun heq => hc (Fin.ext heq)
          simp only [left, Function.update_of_ne hne, le_refl]
  · simp only [left, Function.update_self]
    exact h

namespace Refines

theorem change_sim (h : Refines u cfg cfg') {s : Fin X.M} (owed : List (ℕ × Bytes))
    (got : ℕ → Bytes) {cfg₁ : (QueryRound.system X.M X.N X.snaps).Config}
    {cfg₁' : (system X.M X.N X.snaps).Config} (hreached : Reached X cfg₁)
    (hlinks : Links { u with
      simOwed := Function.update u.simOwed s owed
      simGot := Function.update u.simGot s got } cfg₁.shared cfg₁'.shared)
    (hothers : ∀ p, p ≠ .sim s → cfg₁.control p = cfg.control p ∧ cfg₁'.control p = cfg'.control p)
    {q : SimProg Unit (List Branch)} {p : Prog SimResp (List Branch)}
    (hq : cfg₁.control (.sim s) = q) (hp : cfg₁'.control (.sim s) = p)
    (hamid : Amid simTransport q owed got p) :
    Refines { u with
      simOwed := Function.update u.simOwed s owed
      simGot := Function.update u.simGot s got } cfg₁ cfg₁' where
  reached := hreached
  links := hlinks
  sims s' := by
    by_cases hs : s' = s
    · subst hs
      simp only [Function.update_self, hq, hp]
      exact hamid
    · have hne : (s' : ℕ) ≠ s := fun heq => hs (Fin.ext heq)
      obtain ⟨hsame, hsame'⟩ := hothers (.sim s') (fun heq => hs (Party.sim.inj heq))
      simp only [Function.update_of_ne hne, hsame, hsame']
      exact h.sims s'
  clients c := by
    obtain ⟨hsame, hsame'⟩ := hothers (.client c) (fun heq => nomatch heq)
    rw [hsame, hsame']
    exact h.clients c

theorem change_client (h : Refines u cfg cfg') {c : Fin X.N} (owed : List (ℕ × Bytes))
    (got : ℕ → Bytes) {cfg₁ : (QueryRound.system X.M X.N X.snaps).Config}
    {cfg₁' : (system X.M X.N X.snaps).Config} (hreached : Reached X cfg₁)
    (hlinks : Links { u with
      clientOwed := Function.update u.clientOwed c owed
      clientGot := Function.update u.clientGot c got } cfg₁.shared cfg₁'.shared)
    (hothers : ∀ p, p ≠ .client c →
      cfg₁.control p = cfg.control p ∧ cfg₁'.control p = cfg'.control p)
    {q : ClientProg Unit ClientLabel} {p : Prog ClientResp ClientLabel}
    (hq : cfg₁.control (.client c) = q) (hp : cfg₁'.control (.client c) = p)
    (hamid : Amid clientTransport q owed got p) :
    Refines { u with
      clientOwed := Function.update u.clientOwed c owed
      clientGot := Function.update u.clientGot c got } cfg₁ cfg₁' where
  reached := hreached
  links := hlinks
  sims s := by
    obtain ⟨hsame, hsame'⟩ := hothers (.sim s) (fun heq => nomatch heq)
    rw [hsame, hsame']
    exact h.sims s
  clients c' := by
    by_cases hc : c' = c
    · subst hc
      simp only [Function.update_self, hq, hp]
      exact hamid
    · have hne : (c' : ℕ) ≠ c := fun heq => hc (Fin.ext heq)
      obtain ⟨hsame, hsame'⟩ := hothers (.client c') (fun heq => hc (Party.client.inj heq))
      simp only [Function.update_of_ne hne, hsame, hsame']
      exact h.clients c'

/-! ## What needs no system call -/

/-- Simulation rank `s` has sent a message, and has `q` left to do. -/
abbrev afterSend (cfg : (QueryRound.system X.M X.N X.snaps).Config) (s : Fin X.M) (rank : ℕ)
    (m : Message) (q : SimProg Unit (List Branch)) : (QueryRound.system X.M X.N X.snaps).Config :=
  ⟨{ cfg.shared with
      down := updateAt cfg.shared.down s rank ((cfg.shared.down s rank).push m) },
    Function.update cfg.control (.sim s) q⟩

/-- Client rank `c` has received a message, and has `q` left to do. -/
abbrev afterRecv (cfg : (QueryRound.system X.M X.N X.snaps).Config) (c : Fin X.N) (rank : ℕ)
    (q : ClientProg Unit ClientLabel) : (QueryRound.system X.M X.N X.snaps).Config :=
  ⟨{ cfg.shared with down := updateAt cfg.shared.down rank c (cfg.shared.down rank c).pop },
    Function.update cfg.control (.client c) q⟩

/-- A simulation rank counts as having sent what it is about to send. -/
theorem send_sim (h : Refines u cfg cfg') {s : Fin X.M} {comm : Unit} {kind : Kind} {data : Bytes}
    {rank : ℕ} {k : Unit → SimProg Unit (List Branch)}
    (hq : cfg.control (.sim s) = vis (.send comm kind data rank) k) :
    Refines
      { u with
        simOwed := Function.update u.simOwed s (u.simOwed s ++ [(rank, data)])
        simGot := Function.update u.simGot s (fun _ => []) }
      (afterSend cfg s rank ⟨kind, data, cfg.shared.serving s⟩ (k ())) cfg' ∧
    ∀ T K, Move X T K cfg (afterSend cfg s rank ⟨kind, data, cfg.shared.serving s⟩ (k ())) := by
  have hamid := h.sims s
  rw [hq] at hamid
  have hunread : u.simGot s = fun _ => [] := hamid.unread (fun o k' hvis => by cases hvis; rfl)
  have hgot : Function.update u.simGot s (fun _ => []) = u.simGot := by
    rw [← hunread, Function.update_eq_self]
  have hmove : ∀ T K, Move X T K cfg _ := fun T K =>
    .act (p := .sim s) (r := ()) hq rfl trivial
  refine ⟨h.change_sim _ _ (h.reached.step (hmove 0 0).step) { h.links with
    down := h.links.down.push s rank ⟨kind, data, cfg.shared.serving s⟩
    up := ?_ } (fun p hp => ⟨Function.update_of_ne hp .., rfl⟩)
    (Function.update_self ..) rfl (Amid.opening ?_), hmove⟩
  · rw [hgot]
    exact h.links.up
  · rw [hamid.control, flush_concat, hunread]
    rfl

/-- Where a simulation rank comes to. -/
theorem settle_sim (h : Refines u cfg cfg') (s : Fin X.M) :
    ∃ u₁ cfg₁, Refines u₁ cfg₁ cfg' ∧ u₁.clientOwed = u.clientOwed ∧
      Settled (.sim s) (cfg₁.control (.sim s)) ∧
      (∀ p, p ≠ .sim s → cfg₁.control p = cfg.control p) ∧
      ∀ T K, MovesOn X T K u cfg u₁ cfg₁ := by
  generalize hq : cfg.control (.sim s) = q
  induction q generalizing u cfg with
  | ret l =>
      refine ⟨u, cfg, h, rfl, ?_, fun _ _ => rfl, fun T K => .inr ⟨rfl, rfl⟩⟩
      intro comm kind data rank k heq
      rw [hq] at heq
      cases heq
  | vis o k ih =>
      cases o with
      | send comm kind data rank =>
          obtain ⟨u₁, cfg₁, h₁, howed, hsettled, hothers, hmoves⟩ :=
            ih () (h.send_sim hq).1 (Function.update_self ..)
          refine ⟨u₁, cfg₁, h₁, howed, hsettled, fun p hp => ?_,
            fun T K => (hmoves T K).head ((h.send_sim hq).2 T K)⟩
          exact (hothers p hp).trans (Function.update_of_ne hp ..)
      | _ =>
          refine ⟨u, cfg, h, rfl, ?_, fun _ _ => rfl, fun T K => .inr ⟨rfl, rfl⟩⟩
          intro comm kind data rank k heq
          rw [hq] at heq
          cases heq

/-- A client rank counts as having received an empty message, which has been sent. -/
theorem recv_client (h : Refines u cfg cfg') (hsims : ∀ s, Settled (.sim s) (cfg.control (.sim s)))
    {c : Fin X.N} {comm : Unit} {kind : Kind} {rank : ℕ} {k : Bytes → ClientProg Unit ClientLabel}
    (hq : cfg.control (.client c) = vis (.recv comm kind 0 rank) k) :
    Refines
      { u with
        clientOwed := Function.update u.clientOwed c (u.clientOwed c)
        clientGot := Function.update u.clientGot c (fun _ => []) }
      (afterRecv cfg c rank (k [])) cfg' ∧ ∀ T K, Move X T K cfg (afterRecv cfg c rank (k [])) := by
  have hamid := h.clients c
  rw [hq] at hamid
  have hunread : u.clientGot c = fun _ => [] := by
    funext i
    by_contra hne
    obtain ⟨o, k', size, hvis, hsource, hlt⟩ := hamid.reading i hne
    cases hvis
    cases hsource
    exact Nat.not_lt_zero _ hlt
  obtain ⟨m, hm⟩ := Option.ne_none_iff_exists'.1 (QueryRound.empty_sent h.reached hsims hq)
  have hdata : m.data = [] :=
    List.eq_nil_of_length_eq_zero (QueryRound.client_recv_size h.reached hq hm)
  have hmove : ∀ T K, Move X T K cfg _ := fun T K =>
    .act (p := .client c) (r := []) hq ⟨m, hm, hdata.symm, rfl⟩ trivial
  have hpop := h.links.down.pop hm ((congrFun hunread rank).trans hdata.symm)
  rw [hunread, Function.update_eq_self_iff.2 rfl] at hpop
  refine ⟨h.change_client _ _ (h.reached.step (hmove 0 0).step) { h.links with
    down := hpop
    up := ?_ } (fun p hp => ⟨Function.update_of_ne hp .., rfl⟩)
    (Function.update_self ..) rfl (Amid.opening ?_), hmove⟩
  · rw [Function.update_eq_self]
    exact h.links.up
  · rw [hamid.control, hunread]
    congr 1
    show recvRest rank 0 [] >>= _ = _
    rw [recvRest_zero, ret_bind]

/-- Where a client rank comes to. -/
theorem settle_client (h : Refines u cfg cfg')
    (hsims : ∀ s, Settled (.sim s) (cfg.control (.sim s))) (c : Fin X.N) :
    ∃ u₁ cfg₁, Refines u₁ cfg₁ cfg' ∧ u₁.clientOwed = u.clientOwed ∧
      Settled (.client c) (cfg₁.control (.client c)) ∧
      (∀ p, p ≠ .client c → cfg₁.control p = cfg.control p) ∧
      ∀ T K, MovesOn X T K u cfg u₁ cfg₁ := by
  generalize hq : cfg.control (.client c) = q
  induction q generalizing u cfg with
  | ret l =>
      refine ⟨u, cfg, h, rfl, ?_, fun _ _ => rfl, fun T K => .inr ⟨rfl, rfl⟩⟩
      intro comm kind rank k heq
      rw [hq] at heq
      cases heq
  | vis o k ih =>
      by_cases hempty : ∃ comm kind rank, o = .recv comm kind 0 rank
      · obtain ⟨comm, kind, rank, rfl⟩ := hempty
        have hsims' : ∀ s, Settled (.sim s)
            (Function.update cfg.control (.client c) (k []) (.sim s)) := by
          intro s
          have hne : (Party.sim s : Party X.M X.N) ≠ .client c := fun heq => nomatch heq
          rw [Function.update_of_ne hne]
          exact hsims s
        obtain ⟨u₁, cfg₁, h₁, howed, hsettled, hothers, hmoves⟩ :=
          ih [] (h.recv_client hsims hq).1 hsims' (Function.update_self ..)
        refine ⟨u₁, cfg₁, h₁, howed.trans (Function.update_eq_self ..), hsettled, fun p hp => ?_,
          fun T K => (hmoves T K).head ((h.recv_client hsims hq).2 T K)⟩
        exact (hothers p hp).trans (Function.update_of_ne hp ..)
      · refine ⟨u, cfg, h, rfl, ?_, fun _ _ => rfl, fun T K => .inr ⟨rfl, rfl⟩⟩
        intro comm kind rank k' heq
        rw [hq] at heq
        cases heq
        exact hempty ⟨comm, kind, rank, rfl⟩

end Refines

/-! ## What is no transfer -/

section Calls

variable {w : QueryRound.World} {w' w₁' : World}

/-- A simulation rank that has read nothing finds a socket readable when a message has been sent. -/
theorem Links.readable_eq (h : Links u w w') (hbegun : Begun u)
    (hlength : ∀ c s m, (w.up c s).next? = some m → m.data.length = 4) {s : ℕ}
    (hgot : u.simGot s = fun _ => []) (c : ℕ) :
    w'.readable s c = (w.up c s).next?.isSome := by
  have hcarries := h.up c s
  rw [hgot] at hcarries
  rw [World.readable]
  cases hnext : (w.up c s).next? with
  | none =>
      rw [Option.isSome_none, decide_eq_false_iff_not, not_not]
      by_contra hne
      exact hcarries.next_ne_none hne hnext
  | some m =>
      rw [Option.isSome_some, decide_eq_true_iff]
      refine hcarries.pending_ne_nil hnext ?_
      rw [hlength c s m hnext, List.length_nil, Nat.zero_add]
      exact hbegun.started c s

/-- An operation of a simulation rank that is no transfer. -/
theorem Links.call_sim (h : Links u w w') (hbegun : Begun u)
    (hlength : ∀ c s m, (w.up c s).next? = some m → m.data.length = 4) {N s : ℕ}
    (hgot : u.simGot s = fun _ => []) {o : SimOp Unit} {r : o.Resp}
    (hperform : performSim N s (.call o) w' r w₁') :
    ∃ w₁, QueryRound.performSim N s o w r w₁ ∧ Links u w₁ w₁' := by
  have hreadable := fun c => h.readable_eq hbegun hlength hgot c
  cases o with
  | lock =>
      obtain ⟨hr, rfl⟩ := hperform
      exact ⟨w, ⟨hr.trans (congrFun h.manager s), rfl⟩, h⟩
  | unlock cm =>
      simp only [performSim] at hperform
      subst hperform
      exact ⟨_, rfl, { h with manager := congrArg (Function.update · s cm) h.manager }⟩
  | bcast buf =>
      simp only [performSim] at hperform
      by_cases hs : s = 0
      · rw [if_pos hs] at hperform
        obtain ⟨hr, rfl⟩ := hperform
        refine ⟨{ w with simCast := w.simCast ++ [buf] }, ?_,
          { h with simCast := congrArg (· ++ [buf]) h.simCast }⟩
        simp only [QueryRound.performSim, if_pos hs]
        exact ⟨hr, trivial⟩
      · rw [if_neg hs, h.simCast, h.simHeard] at hperform
        obtain ⟨hr, rfl⟩ := hperform
        refine ⟨{ w with simHeard := Function.update w.simHeard s (w.simHeard s + 1) }, ?_,
          { h with simCast := rfl, simHeard := rfl }⟩
        simp only [QueryRound.performSim, if_neg hs]
        exact ⟨hr, trivial⟩
  | probe comm rank =>
      obtain ⟨hr, rfl⟩ := hperform
      exact ⟨w, ⟨hr.trans (hreadable rank), rfl⟩, h⟩
  | probeAll comm =>
      obtain ⟨hr, rfl⟩ := hperform
      obtain ⟨hlt, hfound, hfirst⟩ := SocketInterComm.probeAll_eq.1 hr
      refine ⟨w, ⟨hlt, (hreadable r).symm.trans hfound, fun c hc => ?_, rfl⟩, h⟩
      rw [← Option.not_isSome_iff_eq_none, ← hreadable c, hfirst c hc]
      exact Bool.false_ne_true
  | _ => exact absurd hperform (by simp [performSim])

/-- Rank 0 polls as often. -/
theorem Links.polls_iff (h : Links u w w') {K : ℕ} {o : SimOp Unit} {r : o.Resp} :
    patientPoll K (.call o) w' r ↔ QueryRound.patientPoll K o w r := by
  cases o with
  | probe comm rank =>
      show r = true ∨ w'.vainCalls < K ↔ r = true ∨ w.vainCalls < K
      rw [World.vainCalls, h.simCast, QueryRound.World.vainCalls]
  | _ => exact Iff.rfl

/-- An operation of a client rank that is no transfer. -/
theorem Links.call_client (h : Links u w w') {M N c : ℕ} {o : ClientOp Unit} {r : o.Resp}
    (hperform : performClient M N c (.call o) w' r w₁') :
    ∃ w₁, QueryRound.performClient M N c o w r w₁ ∧ Links u w₁ w₁' := by
  cases o with
  | remoteSize comm =>
      obtain ⟨hr, rfl⟩ := hperform
      exact ⟨w, ⟨hr, rfl⟩, h⟩
  | arrive =>
      simp only [performClient, h.arrived] at hperform
      subst hperform
      exact ⟨_, rfl, { h with arrived := rfl }⟩
  | leave =>
      obtain ⟨hall, rfl⟩ := hperform
      rw [h.arrived] at hall
      exact ⟨w, ⟨hall, rfl⟩, h⟩
  | bcast buf =>
      simp only [performClient] at hperform
      by_cases hc : c = 0
      · rw [if_pos hc] at hperform
        obtain ⟨hr, rfl⟩ := hperform
        refine ⟨{ w with clientCast := w.clientCast ++ [buf] }, ?_,
          { h with clientCast := congrArg (· ++ [buf]) h.clientCast }⟩
        simp only [QueryRound.performClient, if_pos hc]
        exact ⟨hr, trivial⟩
      · rw [if_neg hc, h.clientCast, h.clientHeard] at hperform
        obtain ⟨hr, rfl⟩ := hperform
        refine ⟨{ w with clientHeard := Function.update w.clientHeard c (w.clientHeard c + 1) }, ?_,
          { h with clientCast := rfl, clientHeard := rfl }⟩
        simp only [QueryRound.performClient, if_neg hc]
        exact ⟨hr, trivial⟩
  | _ => exact absurd hperform (by simp [performClient])

end Calls

/-! ## A system call of a simulation rank -/

/-- Where a simulation rank is that has `q` left to do message by message. -/
inductive SimStage (u : Underway) (s : ℕ) (q : SimProg Unit (List Branch)) :
    Prog SimResp (List Branch) → Prop
  | writing {rank : ℕ} {data : Bytes} {more : List (ℕ × Bytes)} (hne : data ≠ [])
      (hlength : owedLength (u.simOwed s) = owedLength ((rank, data) :: more))
      (howed : ∀ j, owedTo (u.simOwed s) j = owedTo ((rank, data) :: more) j) :
      SimStage u s q (vis (.send rank data) (fun n : Count data.length =>
        flush ((rank, data.drop n.1) :: more) (rest simTransport q (u.simGot s))))
  | label {l : List Branch} (hnil : ∀ j, owedTo (u.simOwed s) j = []) (hq : q = ret l) :
      SimStage u s q (ret l)
  | reading {comm : Unit} {kind : Kind} {size rank : ℕ} {k : Bytes → SimProg Unit (List Branch)}
      (hnil : ∀ j, owedTo (u.simOwed s) j = []) (hq : q = vis (.recv comm kind size rank) k)
      (hlt : (u.simGot s rank).length < size) :
      SimStage u s q (vis (.recv rank (size - (u.simGot s rank).length))
        (fun bs : Piece (size - (u.simGot s rank).length) =>
          recvRest rank (size - (u.simGot s rank ++ bs.1).length) (u.simGot s rank ++ bs.1) >>=
            fun a => (k a).interp (fun o => simTransport.resume o (fun _ => []))))
  | calling {o : SimOp Unit} {k : o.Resp → SimProg Unit (List Branch)}
      (hnil : ∀ j, owedTo (u.simOwed s) j = []) (hq : q = vis o k)
      (hsource : simTransport.source o = none)
      (hsend : ∀ comm kind data rank, o ≠ .send comm kind data rank) :
      SimStage u s q (vis (.call o)
        (fun r => (k r).interp (fun o => simTransport.resume o (fun _ => []))))

namespace Refines

section Sim

variable {s : Fin X.M}

/-- What the next system call belongs to. -/
theorem stage_sim (h : Refines u cfg cfg') (hsettled : Settled (.sim s) (cfg.control (.sim s))) :
    SimStage u s (cfg.control (.sim s)) (cfg'.control (.sim s)) := by
  have hamid := h.sims s
  rw [hamid.control]
  rcases flush_cases (u.simOwed s) (rest simTransport (cfg.control (.sim s)) (u.simGot s)) with
    hnil | ⟨rank, data, more, hne, hlength, howed, hflush⟩
  · rw [flush_of_nil hnil]
    cases hq : cfg.control (.sim s) with
    | ret l => exact .label hnil rfl
    | vis o k =>
        rw [hq] at hamid
        cases o with
        | send comm kind data rank => exact absurd hq (hsettled comm kind data rank k)
        | recv comm kind size rank =>
            have hsource : simTransport.source (.recv comm kind size rank) = some (rank, size) :=
              rfl
            have hlt := (hamid.unread_of_recv hsource).2 (QueryRound.sim_recv_size h.reached hq).1
            have hrest : rest simTransport (vis (.recv comm kind size rank) k) (u.simGot s) = _ :=
              recvRest_bind rank hlt _
            rw [hrest]
            exact .reading hnil rfl hlt
        | _ => exact .calling hnil rfl rfl (fun _ _ _ _ heq => nomatch heq)
  · rw [hflush]
    exact .writing hne hlength howed

theorem write_sim (h : Refines u cfg cfg') {rank : ℕ} {data : Bytes} {more : List (ℕ × Bytes)}
    (howed : ∀ j, owedTo (u.simOwed s) j = owedTo ((rank, data) :: more) j)
    (n : Count data.length) {w' : World}
    (hperform : performSim X.N s (.send rank data) cfg'.shared n w') :
    Refines
      { u with
        simOwed := Function.update u.simOwed s ((rank, data.drop n.1) :: more)
        simGot := Function.update u.simGot s (u.simGot s) }
      cfg ⟨w', Function.update cfg'.control (.sim s)
        (flush ((rank, data.drop n.1) :: more)
          (rest simTransport (cfg.control (.sim s)) (u.simGot s)))⟩ := by
  simp only [performSim] at hperform
  subst hperform
  have hparts : ∀ j, owedTo (u.simOwed s) j =
      owedTo ((rank, data.take n.1 ++ data.drop n.1) :: more) j := by
    rwa [List.take_append_drop]
  refine h.change_sim _ _ h.reached { h.links with
    down := h.links.down.write hparts
    up := ?_ } (fun p hp => ⟨rfl, Function.update_of_ne hp ..⟩) rfl (Function.update_self ..)
    ⟨rfl, (h.sims s).reading⟩
  rw [Function.update_eq_self]
  exact h.links.up

theorem read_sim (h : Refines u cfg cfg') {comm : Unit} {kind : Kind} {size rank : ℕ}
    {k : Bytes → SimProg Unit (List Branch)}
    (hq : cfg.control (.sim s) = vis (.recv comm kind size rank) k)
    (hnil : ∀ j, owedTo (u.simOwed s) j = []) (hlt : (u.simGot s rank).length < size)
    (r : Piece (size - (u.simGot s rank).length)) {w' : World}
    (hperform : performSim X.N s (.recv rank (size - (u.simGot s rank).length))
      cfg'.shared r w') :
    ∃ u₁ cfg₁, Refines u₁ cfg₁ ⟨w', Function.update cfg'.control (.sim s)
        (recvRest rank (size - (u.simGot s rank ++ r.1).length) (u.simGot s rank ++ r.1) >>=
          fun a => (k a).interp (fun o => simTransport.resume o (fun _ => [])))⟩ ∧
      u₁.clientOwed = u.clientOwed ∧ (∀ p, p ≠ .sim s → cfg₁.control p = cfg.control p) ∧
      ∀ T K, ComesOn X T K u cfg u₁ cfg₁ := by
  have hamid := h.sims s
  rw [hq] at hamid
  have hsource : simTransport.source (.recv comm kind size rank) = some (rank, size) := rfl
  obtain ⟨hbegins, rfl⟩ := hperform
  have hne : r.1 ≠ [] := List.ne_nil_of_length_pos r.2.1
  by_cases hfull : (u.simGot s rank ++ r.1).length = size
  · -- the last of it: the message is received now
    obtain ⟨m, hm, hdata, hcarries⟩ := h.links.up.receive hbegins hne
      (QueryRound.sim_recv_size h.reached hq).2 hfull
    rw [hamid.read_all hsource] at hcarries
    have hmove : ∀ T K, Move X T K cfg _ := fun T K =>
      .act (p := .sim s) hq ⟨m, hm, rfl, rfl⟩ trivial
    refine ⟨_, _, h.change_sim (u.simOwed s) (fun _ => []) (h.reached.step (hmove 0 0).step)
      { h.links with
        down := ?_
        up := hcarries } (fun p hp => ⟨Function.update_of_ne hp .., Function.update_of_ne hp ..⟩)
      (Function.update_self ..) (Function.update_self ..) (Amid.opening ?_), rfl,
      fun p hp => Function.update_of_ne hp .., fun T K => .inl (.single (hmove T K))⟩
    · rw [Function.update_eq_self]
      exact h.links.down
    · rw [flush_of_nil hnil, recvRest_full rank hfull, hdata]
  · -- a part of it: the message-level rank still waits
    have hmore : (u.simGot s rank ++ r.1).length < size := by
      refine Nat.lt_of_le_of_ne ?_ hfull
      have hle := r.2.2.1
      rw [List.length_append]
      omega
    refine ⟨_, cfg, h.change_sim (u.simOwed s) _ h.reached { h.links with
        down := ?_
        up := h.links.up.read hbegins } (fun p hp => ⟨rfl, Function.update_of_ne hp ..⟩) hq
      (Function.update_self ..) (hamid.read_part hsource hmore ?_), rfl, fun _ _ => rfl,
      fun T K => .inr ⟨rfl, left_sim_lt ?_⟩⟩
    · rw [Function.update_eq_self]
      exact h.links.down
    · rw [flush_of_nil hnil]
      show _ = recvRest rank (size - (Function.update (u.simGot s) rank _ rank).length)
        (Function.update (u.simGot s) rank _ rank) >>= _
      rw [Function.update_self]
    · rw [hq]
      exact Transport.left_read_lt hsource hne hmore

theorem call_sim (h : Refines u cfg cfg') (hbegun : Begun u) {o : SimOp Unit}
    {k : o.Resp → SimProg Unit (List Branch)} (hq : cfg.control (.sim s) = vis o k)
    (hnil : ∀ j, owedTo (u.simOwed s) j = []) (hsource : simTransport.source o = none) {r : o.Resp}
    {w' : World} (hperform : performSim X.N s (.call o) cfg'.shared r w') :
    ∃ u₁ cfg₁, Refines u₁ cfg₁ ⟨w', Function.update cfg'.control (.sim s)
        ((k r).interp (fun o => simTransport.resume o (fun _ => [])))⟩ ∧
      u₁.clientOwed = u.clientOwed ∧ (∀ p, p ≠ .sim s → cfg₁.control p = cfg.control p) ∧
      ∀ T K, patientPoll K (.call o) cfg'.shared r → ComesOn X T K u cfg u₁ cfg₁ := by
  have hamid := h.sims s
  rw [hq] at hamid
  have hunread : u.simGot s = fun _ => [] :=
    hamid.unread (fun o k' hvis => by cases hvis; exact hsource)
  obtain ⟨w₁, hperform₁, hlinks⟩ := h.links.call_sim hbegun
    (fun c s m hm => QueryRound.next_up_length h.reached hm) hunread hperform
  refine ⟨_, _, h.change_sim (u.simOwed s) (u.simGot s)
    (h.reached.step (.act cfg (.sim s) r w₁ hq hperform₁)) ?_
    (fun p hp => ⟨Function.update_of_ne hp .., Function.update_of_ne hp ..⟩)
    (Function.update_self ..) (Function.update_self ..) ?_, rfl,
    fun p hp => Function.update_of_ne hp ..,
    fun T K hpoll => .inl (.single (.act hq hperform₁ (h.links.polls_iff.1 hpoll)))⟩
  · simp only [Function.update_eq_self]
    exact hlinks
  · rw [hunread]
    exact Amid.opening (flush_of_nil hnil _).symm

/-- Whatever system call a simulation rank makes, the message-level rank makes a step or none. -/
theorem step_sim (h : Refines u cfg cfg') (hbegun : Begun u)
    (hsettled : Settled (.sim s) (cfg.control (.sim s))) {o : SocketOp (SimOp Unit)}
    {k : SimResp o → Prog SimResp (List Branch)} {r : SimResp o} {w' : World}
    (hctl : cfg'.control (.sim s) = vis o k) (hperform : performSim X.N s o cfg'.shared r w') :
    ∃ u₁ cfg₁, Refines u₁ cfg₁ ⟨w', Function.update cfg'.control (.sim s) (k r)⟩ ∧
      u₁.clientOwed = u.clientOwed ∧ (∀ p, p ≠ .sim s → cfg₁.control p = cfg.control p) ∧
      ∀ T K, patientPoll K o cfg'.shared r → ComesOn X T K u cfg u₁ cfg₁ := by
  have hstage := h.stage_sim hsettled
  rw [hctl] at hstage
  cases hstage with
  | writing hne hlength howed =>
      exact ⟨_, cfg, h.write_sim howed r hperform, rfl, fun _ _ => rfl,
        fun T K _ => .inr ⟨rfl, left_sim_lt (Transport.left_write_lt _ hlength r)⟩⟩
  | reading hnil hq hlt =>
      obtain ⟨u₁, cfg₁, h₁, howed, hothers, hcomes⟩ := h.read_sim hq hnil hlt r hperform
      exact ⟨u₁, cfg₁, h₁, howed, hothers, fun T K _ => hcomes T K⟩
  | calling hnil hq hsource hsend => exact h.call_sim hbegun hq hnil hsource hperform

/-- At a label, it has written all it has sent. -/
theorem label_sim (h : Refines u cfg cfg') (hsettled : Settled (.sim s) (cfg.control (.sim s)))
    {l : List Branch} (hctl : cfg'.control (.sim s) = ret l) :
    cfg.control (.sim s) = ret l ∧ (∀ j, owedTo (u.simOwed s) j = []) ∧
      u.simGot s = fun _ => [] := by
  have hstage := h.stage_sim hsettled
  rw [hctl] at hstage
  cases hstage with
  | label hnil hq =>
      refine ⟨hq, hnil, (h.sims s).unread (fun o k hvis => ?_)⟩
      rw [hq] at hvis
      cases hvis

/-- It goes on with its next call. -/
theorem goto_sim (h : Refines u cfg cfg') (hsettled : Settled (.sim s) (cfg.control (.sim s)))
    {l : List Branch} (hctl : cfg'.control (.sim s) = ret l) :
    ∃ u₁ cfg₁, Refines u₁ cfg₁ ⟨cfg'.shared, Function.update cfg'.control (.sim s)
        ((system X.M X.N X.snaps).code (.sim s) l)⟩ ∧
      u₁.clientOwed = u.clientOwed ∧ (∀ p, p ≠ .sim s → cfg₁.control p = cfg.control p) ∧
      ∀ T K, ComesOn X T K u cfg u₁ cfg₁ := by
  obtain ⟨hq, hnil, hunread⟩ := h.label_sim hsettled hctl
  refine ⟨_, _, h.change_sim (u.simOwed s) (u.simGot s) (h.reached.step (.goto cfg (.sim s) hq)) ?_
    (fun p hp => ⟨Function.update_of_ne hp .., Function.update_of_ne hp ..⟩)
    (Function.update_self ..) (Function.update_self ..) ?_, rfl,
    fun p hp => Function.update_of_ne hp .., fun T K => .inl (.single (.goto hq id))⟩
  · simp only [Function.update_eq_self]
    exact h.links
  · rw [hunread]
    refine Amid.opening ?_
    rw [flush_of_nil hnil, ← simOver_eq]

end Sim

end Refines

/-! ## A system call of a client rank -/

/-- Where a client rank is that has `q` left to do message by message. -/
inductive ClientStage (u : Underway) (c : ℕ) (q : ClientProg Unit ClientLabel) :
    Prog ClientResp ClientLabel → Prop
  | writing {rank : ℕ} {data : Bytes} {more : List (ℕ × Bytes)} (hne : data ≠ [])
      (hlength : owedLength (u.clientOwed c) = owedLength ((rank, data) :: more))
      (howed : ∀ j, owedTo (u.clientOwed c) j = owedTo ((rank, data) :: more) j) :
      ClientStage u c q (vis (.send rank data) (fun n : Count data.length =>
        flush ((rank, data.drop n.1) :: more) (rest clientTransport q (u.clientGot c))))
  | sending {comm : Unit} {kind : Kind} {data : Bytes} {rank : ℕ}
      {k : Unit → ClientProg Unit ClientLabel} (hnil : ∀ j, owedTo (u.clientOwed c) j = [])
      (hq : q = vis (.send comm kind data rank) k) :
      ClientStage u c q (vis (.send rank data) (fun n : Count data.length =>
        flush [(rank, data.drop n.1)]
          ((k ()).interp (fun o => clientTransport.resume o (fun _ => [])))))
  | label {l : ClientLabel} (hnil : ∀ j, owedTo (u.clientOwed c) j = []) (hq : q = ret l) :
      ClientStage u c q (ret l)
  | reading {comm : Unit} {kind : Kind} {size rank : ℕ} {k : Bytes → ClientProg Unit ClientLabel}
      (hnil : ∀ j, owedTo (u.clientOwed c) j = []) (hq : q = vis (.recv comm kind size rank) k)
      (hlt : (u.clientGot c rank).length < size) :
      ClientStage u c q (vis (.recv rank (size - (u.clientGot c rank).length))
        (fun bs : Piece (size - (u.clientGot c rank).length) =>
          recvRest rank (size - (u.clientGot c rank ++ bs.1).length)
            (u.clientGot c rank ++ bs.1) >>=
              fun a => (k a).interp (fun o => clientTransport.resume o (fun _ => []))))
  | calling {o : ClientOp Unit} {k : o.Resp → ClientProg Unit ClientLabel}
      (hnil : ∀ j, owedTo (u.clientOwed c) j = []) (hq : q = vis o k)
      (hsource : clientTransport.source o = none)
      (hsend : ∀ comm kind data rank, o ≠ .send comm kind data rank) :
      ClientStage u c q (vis (.call o)
        (fun r => (k r).interp (fun o => clientTransport.resume o (fun _ => []))))

namespace Refines

section Client

variable {c : Fin X.N}

theorem stage_client (h : Refines u cfg cfg')
    (hsettled : Settled (.client c) (cfg.control (.client c))) :
    ClientStage u c (cfg.control (.client c)) (cfg'.control (.client c)) := by
  have hamid := h.clients c
  rw [hamid.control]
  rcases flush_cases (u.clientOwed c) (rest clientTransport (cfg.control (.client c))
    (u.clientGot c)) with hnil | ⟨rank, data, more, hne, hlength, howed, hflush⟩
  · rw [flush_of_nil hnil]
    cases hq : cfg.control (.client c) with
    | ret l => exact .label hnil rfl
    | vis o k =>
        rw [hq] at hamid
        cases o with
        | send comm kind data rank =>
            have hlength := QueryRound.send_up_length h.reached hq
            have hdata : data ≠ [] := List.ne_nil_of_length_pos (by omega)
            have hrest : rest clientTransport (vis (.send comm kind data rank) k) (u.clientGot c) =
                sendRest rank data >>= fun _ =>
                  (k ()).interp (fun o => clientTransport.resume o (fun _ => [])) := rfl
            rw [hrest, sendRest_of_ne rank hdata]
            exact .sending hnil rfl
        | recv comm kind size rank =>
            have hsource : clientTransport.source (.recv comm kind size rank) = some (rank, size) :=
              rfl
            have hpos : 0 < size := by
              refine Nat.pos_of_ne_zero (fun hzero => ?_)
              subst hzero
              exact hsettled comm kind rank k hq
            have hlt := (hamid.unread_of_recv hsource).2 hpos
            have hrest : rest clientTransport (vis (.recv comm kind size rank) k)
                (u.clientGot c) = _ := recvRest_bind rank hlt _
            rw [hrest]
            exact .reading hnil rfl hlt
        | _ => exact .calling hnil rfl rfl (fun _ _ _ _ heq => nomatch heq)
  · rw [hflush]
    exact .writing hne hlength howed

theorem write_client (h : Refines u cfg cfg') {rank : ℕ} {data : Bytes} {more : List (ℕ × Bytes)}
    (howed : ∀ j, owedTo (u.clientOwed c) j = owedTo ((rank, data) :: more) j)
    (n : Count data.length) {w' : World}
    (hperform : performClient X.M X.N c (.send rank data) cfg'.shared n w') :
    Refines
      { u with
        clientOwed := Function.update u.clientOwed c ((rank, data.drop n.1) :: more)
        clientGot := Function.update u.clientGot c (u.clientGot c) }
      cfg ⟨w', Function.update cfg'.control (.client c)
        (flush ((rank, data.drop n.1) :: more)
          (rest clientTransport (cfg.control (.client c)) (u.clientGot c)))⟩ := by
  simp only [performClient] at hperform
  subst hperform
  have hparts : ∀ j, owedTo (u.clientOwed c) j =
      owedTo ((rank, data.take n.1 ++ data.drop n.1) :: more) j := by
    rwa [List.take_append_drop]
  refine h.change_client _ _ h.reached { h.links with
    down := ?_
    up := h.links.up.write hparts } (fun p hp => ⟨rfl, Function.update_of_ne hp ..⟩) rfl
    (Function.update_self ..) ⟨rfl, (h.clients c).reading⟩
  rw [Function.update_eq_self]
  exact h.links.down

/-- It writes the first part of what it is about to send. -/
theorem send_client (h : Refines u cfg cfg') {comm : Unit} {kind : Kind} {data : Bytes} {rank : ℕ}
    {k : Unit → ClientProg Unit ClientLabel}
    (hq : cfg.control (.client c) = vis (.send comm kind data rank) k)
    (hnil : ∀ j, owedTo (u.clientOwed c) j = []) (n : Count data.length) {w' : World}
    (hperform : performClient X.M X.N c (.send rank data) cfg'.shared n w') :
    Refines
      { u with
        clientOwed := Function.update u.clientOwed c [(rank, data.drop n.1)]
        clientGot := Function.update u.clientGot c (fun _ => []) }
      ⟨{ cfg.shared with
          up := updateAt cfg.shared.up c rank
            ((cfg.shared.up c rank).push ⟨kind, data, cfg.shared.arrived c / 2⟩) },
        Function.update cfg.control (.client c) (k ())⟩
      ⟨w', Function.update cfg'.control (.client c) (flush [(rank, data.drop n.1)]
        ((k ()).interp (fun o => clientTransport.resume o (fun _ => []))))⟩ := by
  simp only [performClient] at hperform
  subst hperform
  have hamid := h.clients c
  rw [hq] at hamid
  have hunread : u.clientGot c = fun _ => [] :=
    hamid.unread (fun o k' hvis => by cases hvis; rfl)
  have hgot : Function.update u.clientGot c (fun _ => []) = u.clientGot := by
    rw [← hunread, Function.update_eq_self]
  have hpush := h.links.up.push c rank ⟨kind, data, cfg.shared.arrived c / 2⟩
  have hparts : ∀ j,
      owedTo (Function.update u.clientOwed c (u.clientOwed c ++ [(rank, data)]) c) j =
        owedTo [(rank, data.take n.1 ++ data.drop n.1)] j := by
    intro j
    rw [Function.update_self, List.take_append_drop, owedTo_concat, hnil, owedTo_cons, owedTo_nil,
      List.nil_append, List.append_nil]
  have hwrite := hpush.write hparts
  rw [Function.update_idem] at hwrite
  refine h.change_client _ _ (h.reached.step (.act cfg (.client c) () _ hq rfl)) { h.links with
    down := ?_
    up := hwrite } (fun p hp => ⟨Function.update_of_ne hp .., Function.update_of_ne hp ..⟩)
    (Function.update_self ..) (Function.update_self ..) (Amid.opening rfl)
  rw [hgot]
  exact h.links.down

theorem read_client (h : Refines u cfg cfg') {comm : Unit} {kind : Kind} {size rank : ℕ}
    {k : Bytes → ClientProg Unit ClientLabel}
    (hq : cfg.control (.client c) = vis (.recv comm kind size rank) k)
    (hnil : ∀ j, owedTo (u.clientOwed c) j = []) (hlt : (u.clientGot c rank).length < size)
    (r : Piece (size - (u.clientGot c rank).length)) {w' : World}
    (hperform : performClient X.M X.N c (.recv rank (size - (u.clientGot c rank).length))
      cfg'.shared r w') :
    ∃ u₁ cfg₁, Refines u₁ cfg₁ ⟨w', Function.update cfg'.control (.client c)
        (recvRest rank (size - (u.clientGot c rank ++ r.1).length) (u.clientGot c rank ++ r.1) >>=
          fun a => (k a).interp (fun o => clientTransport.resume o (fun _ => [])))⟩ ∧
      u₁.clientOwed = u.clientOwed ∧ (∀ p, p ≠ .client c → cfg₁.control p = cfg.control p) ∧
      ∀ T K, ComesOn X T K u cfg u₁ cfg₁ := by
  have hamid := h.clients c
  rw [hq] at hamid
  have hsource : clientTransport.source (.recv comm kind size rank) = some (rank, size) := rfl
  obtain ⟨hbegins, rfl⟩ := hperform
  have hne : r.1 ≠ [] := List.ne_nil_of_length_pos r.2.1
  by_cases hfull : (u.clientGot c rank ++ r.1).length = size
  · -- the last of it: the message is received now
    obtain ⟨m, hm, hdata, hcarries⟩ := h.links.down.receive hbegins hne
      (fun m hm => QueryRound.client_recv_size h.reached hq hm) hfull
    rw [hamid.read_all hsource] at hcarries
    have hmove : ∀ T K, Move X T K cfg _ := fun T K =>
      .act (p := .client c) hq ⟨m, hm, rfl, rfl⟩ trivial
    refine ⟨_, _, h.change_client (u.clientOwed c) (fun _ => []) (h.reached.step (hmove 0 0).step)
      { h.links with
        down := hcarries
        up := ?_ } (fun p hp => ⟨Function.update_of_ne hp .., Function.update_of_ne hp ..⟩)
      (Function.update_self ..) (Function.update_self ..) (Amid.opening ?_),
      Function.update_eq_self .., fun p hp => Function.update_of_ne hp ..,
      fun T K => .inl (.single (hmove T K))⟩
    · rw [Function.update_eq_self]
      exact h.links.up
    · rw [flush_of_nil hnil, recvRest_full rank hfull, hdata]
  · -- a part of it: the message-level rank still waits
    have hmore : (u.clientGot c rank ++ r.1).length < size := by
      refine Nat.lt_of_le_of_ne ?_ hfull
      have hle := r.2.2.1
      rw [List.length_append]
      omega
    refine ⟨_, cfg, h.change_client (u.clientOwed c) _ h.reached { h.links with
        down := h.links.down.read hbegins
        up := ?_ } (fun p hp => ⟨rfl, Function.update_of_ne hp ..⟩) hq
      (Function.update_self ..) (hamid.read_part hsource hmore ?_), Function.update_eq_self ..,
      fun _ _ => rfl, fun T K => .inr ⟨rfl, left_client_lt ?_⟩⟩
    · rw [Function.update_eq_self]
      exact h.links.up
    · rw [flush_of_nil hnil]
      show _ = recvRest rank (size - (Function.update (u.clientGot c) rank _ rank).length)
        (Function.update (u.clientGot c) rank _ rank) >>= _
      rw [Function.update_self]
    · rw [hq]
      exact Transport.left_read_lt hsource hne hmore

theorem call_client (h : Refines u cfg cfg') {o : ClientOp Unit}
    {k : o.Resp → ClientProg Unit ClientLabel} (hq : cfg.control (.client c) = vis o k)
    (hnil : ∀ j, owedTo (u.clientOwed c) j = []) (hsource : clientTransport.source o = none)
    {r : o.Resp} {w' : World} (hperform : performClient X.M X.N c (.call o) cfg'.shared r w') :
    ∃ u₁ cfg₁, Refines u₁ cfg₁ ⟨w', Function.update cfg'.control (.client c)
        ((k r).interp (fun o => clientTransport.resume o (fun _ => [])))⟩ ∧
      u₁.clientOwed = u.clientOwed ∧ (∀ p, p ≠ .client c → cfg₁.control p = cfg.control p) ∧
      ∀ T K, ComesOn X T K u cfg u₁ cfg₁ := by
  have hamid := h.clients c
  rw [hq] at hamid
  have hunread : u.clientGot c = fun _ => [] :=
    hamid.unread (fun o k' hvis => by cases hvis; exact hsource)
  obtain ⟨w₁, hperform₁, hlinks⟩ := h.links.call_client hperform
  refine ⟨_, _, h.change_client (u.clientOwed c) (u.clientGot c)
    (h.reached.step (.act cfg (.client c) r w₁ hq hperform₁)) ?_
    (fun p hp => ⟨Function.update_of_ne hp .., Function.update_of_ne hp ..⟩)
    (Function.update_self ..) (Function.update_self ..) ?_, Function.update_eq_self ..,
    fun p hp => Function.update_of_ne hp ..,
    fun T K => .inl (.single (.act (p := .client c) hq hperform₁ trivial))⟩
  · simp only [Function.update_eq_self]
    exact hlinks
  · rw [hunread]
    exact Amid.opening (flush_of_nil hnil _).symm

theorem step_client (h : Refines u cfg cfg') (hbegun : Begun u)
    (hsettled : Settled (.client c) (cfg.control (.client c))) {o : SocketOp (ClientOp Unit)}
    {k : ClientResp o → Prog ClientResp ClientLabel} {r : ClientResp o} {w' : World}
    (hctl : cfg'.control (.client c) = vis o k)
    (hperform : performClient X.M X.N c o cfg'.shared r w') :
    ∃ u₁ cfg₁, Refines u₁ cfg₁ ⟨w', Function.update cfg'.control (.client c) (k r)⟩ ∧ Begun u₁ ∧
      (∀ p, p ≠ .client c → cfg₁.control p = cfg.control p) ∧
      ∀ T K, ComesOn X T K u cfg u₁ cfg₁ := by
  have hstage := h.stage_client hsettled
  rw [hctl] at hstage
  cases hstage with
  | @writing rank data more hne hlength howed =>
      refine ⟨_, cfg, h.write_client howed r hperform, hbegun.update c rank ?_ (fun j hj => ?_),
        fun _ _ => rfl,
        fun T K => .inr ⟨rfl, left_client_lt (Transport.left_write_lt _ hlength r)⟩⟩
      · have hlt := hbegun.started c rank
        rw [howed] at hlt
        exact (owedTo_drop_le rank data r.1 more rank).trans_lt hlt
      · have hnil := hbegun.others hne howed hj
        rw [howed, owedTo_cons_of_ne hj] at hnil
        rw [owedTo_cons_of_ne hj, hnil]
  | @sending comm kind data rank k' hnil hq =>
      -- with the first bytes of it, the whole message counts as sent
      refine ⟨_, _, h.send_client hq hnil r hperform, hbegun.update c rank ?_ (fun j hj => ?_),
        fun p hp => Function.update_of_ne hp ..,
        fun T K => .inl (.single (.act (p := .client c) hq rfl trivial))⟩
      · have hlength := QueryRound.send_up_length h.reached hq
        have hpos := r.2.1
        refine (owedTo_singleton_le _ _ rank).trans_lt ?_
        rw [List.length_drop]
        omega
      · rw [owedTo_cons_of_ne hj, owedTo_nil]
  | reading hnil hq hlt =>
      obtain ⟨u₁, cfg₁, h₁, howed, hothers, hcomes⟩ := h.read_client hq hnil hlt r hperform
      exact ⟨u₁, cfg₁, h₁, hbegun.of_eq howed, hothers, hcomes⟩
  | calling hnil hq hsource hsend =>
      obtain ⟨u₁, cfg₁, h₁, howed, hothers, hcomes⟩ := h.call_client hq hnil hsource hperform
      exact ⟨u₁, cfg₁, h₁, hbegun.of_eq howed, hothers, hcomes⟩

theorem label_client (h : Refines u cfg cfg')
    (hsettled : Settled (.client c) (cfg.control (.client c))) {l : ClientLabel}
    (hctl : cfg'.control (.client c) = ret l) :
    cfg.control (.client c) = ret l ∧ (∀ j, owedTo (u.clientOwed c) j = []) ∧
      u.clientGot c = fun _ => [] := by
  have hstage := h.stage_client hsettled
  rw [hctl] at hstage
  cases hstage with
  | label hnil hq =>
      refine ⟨hq, hnil, (h.clients c).unread (fun o k hvis => ?_)⟩
      rw [hq] at hvis
      cases hvis

theorem goto_client (h : Refines u cfg cfg')
    (hsettled : Settled (.client c) (cfg.control (.client c))) {l : ClientLabel}
    (hctl : cfg'.control (.client c) = ret l) :
    ∃ u₁ cfg₁, Refines u₁ cfg₁ ⟨cfg'.shared, Function.update cfg'.control (.client c)
        ((system X.M X.N X.snaps).code (.client c) l)⟩ ∧
      u₁.clientOwed = u.clientOwed ∧ (∀ p, p ≠ .client c → cfg₁.control p = cfg.control p) ∧
      ∀ T K, l.rounds.length < T → ComesOn X T K u cfg u₁ cfg₁ := by
  obtain ⟨hq, hnil, hunread⟩ := h.label_client hsettled hctl
  refine ⟨_, _, h.change_client (u.clientOwed c) (u.clientGot c)
    (h.reached.step (.goto cfg (.client c) hq)) ?_
    (fun p hp => ⟨Function.update_of_ne hp .., Function.update_of_ne hp ..⟩)
    (Function.update_self ..) (Function.update_self ..) ?_, Function.update_eq_self ..,
    fun p hp => Function.update_of_ne hp .., fun T K hlt => .inl (.single (.goto hq (not_le.2 hlt)))⟩
  · simp only [Function.update_eq_self]
    exact h.links
  · rw [hunread]
    refine Amid.opening ?_
    rw [flush_of_nil hnil, ← clientOver_eq]

end Client

end Refines

/-! ## Every run -/

/-- A configuration over sockets that stands for a message-level configuration in which every rank
    has come as far as it can without a system call. -/
structure Stands (u : Underway) (cfg : (QueryRound.system X.M X.N X.snaps).Config)
    (cfg' : (system X.M X.N X.snaps).Config) : Prop extends Refines u cfg cfg' where
  begun : Begun u
  settled : ∀ p, Settled p (cfg.control p)

/-- A simulation rank may be ahead of where it has come to. -/
theorem Refines.stands_sim (h : Refines u cfg cfg') (hbegun : Begun u) {s : Fin X.M}
    (hsettled : ∀ p, p ≠ .sim s → Settled p (cfg.control p)) :
    ∃ u₁ cfg₁, Stands u₁ cfg₁ cfg' ∧ ∀ T K, MovesOn X T K u cfg u₁ cfg₁ := by
  obtain ⟨u₁, cfg₁, h₁, howed, hsim, hothers, hmoves⟩ := h.settle_sim s
  refine ⟨u₁, cfg₁, ⟨h₁, hbegun.of_eq howed, fun p => ?_⟩, hmoves⟩
  by_cases hp : p = .sim s
  · rw [hp]
    exact hsim
  · rw [hothers p hp]
    exact hsettled p hp

theorem Refines.stands_client (h : Refines u cfg cfg') (hbegun : Begun u) {c : Fin X.N}
    (hsettled : ∀ p, p ≠ .client c → Settled p (cfg.control p)) :
    ∃ u₁ cfg₁, Stands u₁ cfg₁ cfg' ∧ ∀ T K, MovesOn X T K u cfg u₁ cfg₁ := by
  have hsims : ∀ s, Settled (.sim s) (cfg.control (.sim s)) :=
    fun s => hsettled (.sim s) (fun heq => nomatch heq)
  obtain ⟨u₁, cfg₁, h₁, howed, hclient, hothers, hmoves⟩ := h.settle_client hsims c
  refine ⟨u₁, cfg₁, ⟨h₁, hbegun.of_eq howed, fun p => ?_⟩, hmoves⟩
  by_cases hp : p = .client c
  · rw [hp]
    exact hclient
  · rw [hothers p hp]
    exact hsettled p hp

/-- Rank 0 does not poll for ever. -/
def Polls (M N : ℕ) (snaps : Snapshots) (K : ℕ) : (p : Party M N) →
    (o : (system M N snaps).Op p) → World → (system M N snaps).Resp p o → Prop
  | .sim _ => fun o w r => patientPoll K o w r
  | .client _ => fun _ _ _ => True

/-- A client rank is at its end after `T` rounds. -/
def Ends (M N : ℕ) (snaps : Snapshots) (T : ℕ) : (p : Party M N) → (system M N snaps).Label p → Prop
  | .sim _ => fun _ => False
  | .client _ => fun l => T ≤ l.rounds.length

theorem Stands.act (h : Stands u cfg cfg') {p : Party X.M X.N}
    {o : (system X.M X.N X.snaps).Op p} {k : (system X.M X.N X.snaps).Resp p o →
      Prog ((system X.M X.N X.snaps).Resp p) ((system X.M X.N X.snaps).Label p)}
    {r : (system X.M X.N X.snaps).Resp p o} {w' : World} (hctl : cfg'.control p = vis o k)
    (hperform : (system X.M X.N X.snaps).perform p o cfg'.shared r w') :
    ∃ u₁ cfg₁, Stands u₁ cfg₁ ⟨w', Function.update cfg'.control p (k r)⟩ ∧
      ∀ T K, Polls X.M X.N X.snaps K p o cfg'.shared r → ComesOn X T K u cfg u₁ cfg₁ := by
  cases p with
  | sim s =>
      obtain ⟨u₁, cfg₁, h₁, howed, hothers, hcomes⟩ :=
        h.toRefines.step_sim h.begun (h.settled _) hctl hperform
      obtain ⟨u₂, cfg₂, h₂, hmoves⟩ := h₁.stands_sim (h.begun.of_eq howed)
        (fun p hp => hothers p hp ▸ h.settled p)
      exact ⟨u₂, cfg₂, h₂, fun T K hpoll => (hcomes T K hpoll).moves (hmoves T K)⟩
  | client c =>
      obtain ⟨u₁, cfg₁, h₁, hbegun₁, hothers, hcomes⟩ :=
        h.toRefines.step_client h.begun (h.settled _) hctl hperform
      obtain ⟨u₂, cfg₂, h₂, hmoves⟩ := h₁.stands_client hbegun₁
        (fun p hp => hothers p hp ▸ h.settled p)
      exact ⟨u₂, cfg₂, h₂, fun T K _ => (hcomes T K).moves (hmoves T K)⟩

theorem Stands.goto (h : Stands u cfg cfg') {p : Party X.M X.N}
    {l : (system X.M X.N X.snaps).Label p} (hctl : cfg'.control p = ret l) :
    ∃ u₁ cfg₁, Stands u₁ cfg₁ ⟨cfg'.shared, Function.update cfg'.control p
        ((system X.M X.N X.snaps).code p l)⟩ ∧
      ∀ T K, ¬ Ends X.M X.N X.snaps T p l → ComesOn X T K u cfg u₁ cfg₁ := by
  cases p with
  | sim s =>
      obtain ⟨u₁, cfg₁, h₁, howed, hothers, hcomes⟩ := h.toRefines.goto_sim (h.settled _) hctl
      obtain ⟨u₂, cfg₂, h₂, hmoves⟩ := h₁.stands_sim (h.begun.of_eq howed)
        (fun p hp => hothers p hp ▸ h.settled p)
      exact ⟨u₂, cfg₂, h₂, fun T K _ => (hcomes T K).moves (hmoves T K)⟩
  | client c =>
      obtain ⟨u₁, cfg₁, h₁, howed, hothers, hcomes⟩ := h.toRefines.goto_client (h.settled _) hctl
      obtain ⟨u₂, cfg₂, h₂, hmoves⟩ := h₁.stands_client (h.begun.of_eq howed)
        (fun p hp => hothers p hp ▸ h.settled p)
      exact ⟨u₂, cfg₂, h₂, fun T K hgoes => (hcomes T K (not_le.1 hgoes)).moves (hmoves T K)⟩

/-- There is a message-level configuration that a configuration over sockets stands for. -/
def Tracks (X : Setup) (cfg' : (system X.M X.N X.snaps).Config) : Prop :=
  ∃ u cfg, Stands u cfg cfg'

/-- A step over sockets is matched message by message. -/
theorem Tracks.step {cfg'' : (system X.M X.N X.snaps).Config} (h : Tracks X cfg')
    (hstep : (system X.M X.N X.snaps).Step cfg' cfg'') : Tracks X cfg'' := by
  obtain ⟨u, cfg, h⟩ := h
  cases hstep with
  | act p r w' hctl hperform =>
      obtain ⟨u₁, cfg₁, h₁, -⟩ := h.act hctl hperform
      exact ⟨u₁, cfg₁, h₁⟩
  | goto p hctl =>
      obtain ⟨u₁, cfg₁, h₁, -⟩ := h.goto hctl
      exact ⟨u₁, cfg₁, h₁⟩

end SocketRounds

end LibIS
