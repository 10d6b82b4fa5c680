import LibIS.QueryRound.Costs
import LibIS.QueryRound.InFlight
import Mathlib.Data.Fintype.Lattice

set_option autoImplicit false

/-! # Rounds of queries: every run comes to its end

Every client rank calls `query()` a number of times, and every simulation rank `process()` as often
as it takes. Whether sends wait for their receives or not, all client ranks come to the end of their
rounds, however the ranks are interleaved. No rank runs for ever, as its calls are bounded. And no
ranks wait for each other: where nobody can step nothing is in flight but a ping that a simulation
rank has not looked for; so rank 0 has announced all queries it has been sent, and all states have
been sent and taken; so the client ranks have come to a barrier or its broadcast, and of these the
least advanced may go on. -/

open ByteCodec Prog ThreadSystem Proof

namespace LibIS

namespace QueryRound

/-- A connected client and what its ranks do. -/
structure Setup where
  M : ℕ
  N : ℕ
  one_le_M : 1 ≤ M
  one_le_N : 1 ≤ N
  snaps : Snapshots
  world : World
  started : Started world
  conns : Fin N → SimulationConnection Unit
  connected : ∀ c, (conns c).intercomm = some () ∧ (conns c).simQuit = 0
  /-- how often each client rank calls `query()` -/
  rounds : ℕ
  /-- how many messages of a rank may wait on a channel while it goes on; none, if a send waits for
      its receive -/
  capacity : ℕ
  /-- in how many calls rank 0 may find no command -/
  vain : ℕ

variable {X : Setup}

/-! ## Runs of patient ranks -/

/-- A client rank is at its end after the rounds. -/
def Final (X : Setup) : (p : Party X.M X.N) → (system X.M X.N X.snaps).Label p → Prop
  | .sim _ => fun _ => False
  | .client _ => fun l => X.rounds ≤ l.rounds.length

/-- The ranks and their programs, where the ranks are patient. -/
abbrev patient (X : Setup) : ThreadSystem (Party X.M X.N) World :=
  (system X.M X.N X.snaps).guarded (Patient X.M X.N X.snaps X.capacity X.vain)

def patientStart (X : Setup) : (patient X).Config :=
  (patient X).start X.world (startLabels X.M X.N X.snaps X.conns)

theorem Setup.root (X : Setup) : InBlock X.M X.N 0 0 :=
  inBlock_zero X.one_le_M X.one_le_N

abbrev Setup.waiting (X : Setup) :
    ((outline X.M X.N X.snaps).known (Patient X.M X.N X.snaps X.capacity X.vain)).Proof :=
  QueryRound.waiting X.M X.N X.snaps X.rounds X.capacity X.vain

theorem Started.ahead {N T c : ℕ} {w : World} (h : Started w) : Ahead N T c 0 0 w where
  heard _ := h.clientHeard c
  cast _ := by rw [h.clientCast, List.length_nil]
  passed _ _ := Nat.zero_le _
  commands _ := by
    rw [h.arrived]
    exact Nat.zero_le _
  asked _ := by
    rw [h.up]
    exact Nat.zero_le _

variable {cfg : (patient X).Config}

/-- A configuration of a run of patient ranks. -/
structure Patiently (X : Setup) (cfg : (patient X).Config) : Prop where
  reached : (patient X).Advances (Final X) (patientStart X) cfg

namespace Patiently

theorem holds (h : Patiently X cfg) : (outline X.M X.N X.snaps).Holds (unguard cfg) :=
  Proof.sound (outline_valid X.root X.started X.connected) (reachable_unguard h.reached.reachable)

theorem inv (h : Patiently X cfg) : Inv X.M X.N X.snaps cfg.shared :=
  h.holds.inv

theorem waits (h : Patiently X cfg) (p : Party X.M X.N) :
    X.waiting.wp p (cfg.control p) (settled X.M X.N X.snaps X.rounds X.vain p) cfg.shared := by
  refine Proof.more_sound (outline_valid X.root X.started X.connected) ?_ ?_ ?_ h.reached p
  · rintro (s | c)
    · exact fun _ => Nat.zero_le _
    · exact ⟨Nat.zero_le _, X.started.ahead⟩
  · rintro (s | c) l w w' hsettled hrely -
    · exact hsettled
    · exact ⟨hsettled.1, hsettled.2.stable hrely⟩
  · rintro (s | c) l hgoes
    · exact sim_code_waits X.root l
    · exact client_code_waits X.root (not_le.1 hgoes)

theorem settled_at (h : Patiently X cfg) {p : Party X.M X.N}
    {l : (system X.M X.N X.snaps).Label p} (hctl : cfg.control p = .ret l) :
    settled X.M X.N X.snaps X.rounds X.vain p l cfg.shared := by
  have hwp := h.waits p
  rw [hctl] at hwp
  exact (wp_ret _).1 hwp

theorem due_at (h : Patiently X cfg) {p : Party X.M X.N} {o : (system X.M X.N X.snaps).Op p}
    {k : (system X.M X.N X.snaps).Resp p o →
      Prog ((system X.M X.N X.snaps).Resp p) ((system X.M X.N X.snaps).Label p)}
    (hctl : cfg.control p = .vis o k) :
    due X.M X.N X.snaps X.rounds X.vain p o cfg.shared ∧
      ready X.M X.N X.snaps p o cfg.shared := by
  have hwp := h.waits p
  rw [hctl] at hwp
  exact ⟨ready_of_wp h.holds.inv hwp, h.holds.ready hctl⟩

theorem working (h : Patiently X cfg) {s : ℕ} (hs : s < X.M) :
    Working X.M X.N X.snaps s cfg.shared := by
  cases hctl : cfg.control (.sim ⟨s, hs⟩) with
  | ret calls =>
      have hat : SimAt X.M X.N X.snaps s calls [] [] 0 cfg.shared := h.holds.post hctl
      exact ⟨calls, [], [], 0, hat, fun m hm => absurd hm List.not_mem_nil⟩
  | vis o k => exact (h.due_at hctl).1.1

/-! ## Bounds -/

/-- Rank 0 has announced no more than it may. -/
theorem few (h : Patiently X cfg) : Few X.vain cfg.shared := by
  have hs : 0 < X.M := X.one_le_M
  cases hctl : cfg.control (.sim ⟨0, hs⟩) with
  | ret calls =>
      have hat : SimAt X.M X.N X.snaps 0 calls [] [] 0 cfg.shared := h.holds.post hctl
      have hopening : Working X.M X.N X.snaps 0 cfg.shared ∧ (0 = 0 → Few X.vain cfg.shared) :=
        @SimAt.opening _ _ _ _ _ ⟨0, hs⟩ _ _ _ hat X.root (fun _ => h.settled_at hctl rfl)
          InRound.nil
      exact hopening.2 rfl
  | vis o k => exact (h.due_at hctl).1.2.1 rfl

theorem asked (h : Patiently X cfg) :
    cfg.shared.arrived 0 ≤ (cfg.shared.up 0 0).sent.length ∧
      (cfg.shared.up 0 0).sent.length ≤ 2 * X.rounds := by
  have hc : 0 < X.N := X.one_le_N
  cases hctl : cfg.control (.client ⟨0, hc⟩) with
  | ret l =>
      have hahead := (h.settled_at hctl).2
      exact ⟨hahead.commands rfl, hahead.asked rfl⟩
  | vis o k =>
      obtain ⟨r, barriers, n, b, progress, -, -, hahead, -⟩ := (h.due_at hctl).1
      exact ⟨hahead.commands rfl, hahead.asked rfl⟩

theorem rounds_le (h : Patiently X cfg) : cfg.shared.rounds.length ≤ X.rounds := by
  have hfew := h.few.rounds
  have hasked := h.asked.2
  have htaken := h.inv.upTaken 0 0
  omega

theorem calls_le (h : Patiently X cfg) {s : Fin X.M} {calls : List Branch}
    (hctl : cfg.control (.sim s) = .ret calls) : calls.length ≤ X.vain + X.rounds := by
  have hat : SimAt X.M X.N X.snaps s calls [] [] 0 cfg.shared := h.holds.post hctl
  have hle := hat.calls_grow.length_le
  have hlength := (polled_castCalls cfg.shared.simCast).length_eq
  have hvain : (castCalls cfg.shared.simCast).count .idle ≤ X.vain := h.few.idle
  have hrounds : (queryCalls (castCalls cfg.shared.simCast)).length ≤ X.rounds := h.rounds_le
  omega

end Patiently

/-! ## Where nobody can step -/

/-- No rank can step that goes on only when at most `B` of its messages wait on each channel. A
    simulation rank may be between two calls, when a message of it waits. -/
structure Stuck (X : Setup) (B : ℕ) (cfg : (patient X).Config) : Prop extends Patiently X cfg where
  sims : ∀ s l, cfg.control (.sim s) = .ret l → ∃ c, (cfg.shared.down s c).next? ≠ none
  clients : ∀ c l, cfg.control (.client c) = .ret l → X.rounds ≤ l.rounds.length
  blocked : ∀ {p o k r w'}, cfg.control p = .vis o k →
    (system X.M X.N X.snaps).perform p o cfg.shared r w' →
      ¬ Patient X.M X.N X.snaps B X.vain p o cfg.shared r

theorem Patiently.stuck (h : Patiently X cfg)
    (hstuck : ∀ cfg', ¬ (patient X).Advance (Final X) cfg cfg') : Stuck X X.capacity cfg where
  toPatiently := h
  sims s _ hctl := absurd (.goto cfg (.sim s) hctl id) (hstuck _)
  clients c l hctl := by
    by_contra hgoes
    exact hstuck _ (.goto cfg (.client c) hctl hgoes)
  blocked hctl hperform hpatient := hstuck _ (.act cfg _ _ _ hctl ⟨hperform, hpatient⟩)

theorem block_client_lt {M N c s : ℕ} (hN : 1 ≤ N) (hs : s < M) (hblock : InBlock M N c s) :
    c < N := by
  obtain ⟨c', hc', hblock'⟩ := exists_block hN hs
  rwa [hblock.unique hblock']

variable {B : ℕ}

namespace Stuck

/-- A simulation rank of which no message is in flight waits for a message that has not been sent,
    or for rank 0 to announce something. -/
theorem sim_blocked (h : Stuck X B cfg) {s : ℕ} (hs : s < X.M)
    (hdown : ∀ c, InBlock X.M X.N c s → (cfg.shared.down s c).next? = none) :
    (Awaiting X.M X.N X.snaps s cfg.shared ∧
      ∀ c, InBlock X.M X.N c s → (cfg.shared.up c s).next? = none) ∨
    (s ≠ 0 ∧ Hearing X.M X.N X.snaps s cfg.shared ∧
      cfg.shared.simCast[cfg.shared.simHeard s]? = none) := by
  have hnone : ∀ c, (cfg.shared.down s c).next? = none := by
    intro c
    by_cases hblock : InBlock X.M X.N c s
    · exact hdown c hblock
    · rw [Channel.next?, h.inv.downOwner s c hblock, List.getElem?_nil]
  obtain ⟨o, k, hctl⟩ : ∃ o k, cfg.control (.sim ⟨s, hs⟩) = .vis o k := by
    cases hctl : cfg.control (.sim ⟨s, hs⟩) with
    | ret l =>
        obtain ⟨c, hsome⟩ := h.sims ⟨s, hs⟩ l hctl
        exact absurd (hnone c) hsome
    | vis o k => exact ⟨o, k, rfl⟩
  obtain ⟨⟨-, -, hdue⟩, hready⟩ := h.due_at hctl
  have hout : ∀ c, (cfg.shared.down s c).pending.length ≤ B := by
    intro c
    rw [Channel.pending_of_next_none (hnone c)]
    exact Nat.zero_le _
  cases o with
  | lock => exact absurd ⟨hout, trivial⟩ (h.blocked hctl ⟨rfl, rfl⟩)
  | unlock cm => exact absurd ⟨hout, trivial⟩ (h.blocked (r := ()) hctl rfl)
  | send comm kind data rank => exact absurd ⟨hout, trivial⟩ (h.blocked (r := ()) hctl rfl)
  | bcast buf =>
      by_cases hzero : s = 0
      · have hperform : performSim X.N s (.bcast buf) cfg.shared buf
            { cfg.shared with simCast := cfg.shared.simCast ++ [buf] } := by
          rw [performSim, if_pos hzero]
          exact ⟨rfl, rfl⟩
        exact absurd ⟨hout, trivial⟩ (h.blocked hctl hperform)
      · refine .inr ⟨hzero, hdue.2 hzero, ?_⟩
        by_contra hsome
        obtain ⟨r, hr⟩ := Option.ne_none_iff_exists'.1 hsome
        have hperform : performSim X.N s (.bcast buf) cfg.shared r { cfg.shared with
            simHeard := Function.update cfg.shared.simHeard s (cfg.shared.simHeard s + 1) } := by
          rw [performSim, if_neg hzero]
          exact ⟨hr, rfl⟩
        exact absurd ⟨hout, trivial⟩ (h.blocked hctl hperform)
  | probe comm rank =>
      obtain ⟨hzero, hrank, hawaiting⟩ := hdue
      refine .inl ⟨hawaiting, fun c hblock => ?_⟩
      have hc : c = rank := by
        subst hzero hrank
        exact hblock.unique X.root
      by_contra hsome
      have hfound : (cfg.shared.up rank s).next?.isSome = true := by
        rwa [Option.isSome_iff_ne_none, ← hc]
      exact absurd ⟨hout, .inl hfound⟩ (h.blocked hctl ⟨rfl, rfl⟩)
  | probeAll comm =>
      refine .inl ⟨hdue, fun c hblock => ?_⟩
      by_contra hsome
      -- the rank finds the first client rank of which there is a message
      have hex : ∃ c, (cfg.shared.up c s).next?.isSome = true :=
        ⟨c, Option.isSome_iff_ne_none.2 hsome⟩
      have hfirst := Nat.find_spec hex
      have hle : Nat.find hex ≤ c := Nat.find_min' hex (Option.isSome_iff_ne_none.2 hsome)
      have hc := block_client_lt X.one_le_N hs hblock
      have hperform : performSim X.N s (.probeAll comm) cfg.shared (Nat.find hex) cfg.shared := by
        refine ⟨hle.trans_lt hc, hfirst, fun c' hc' => ?_, rfl⟩
        rw [← Option.not_isSome_iff_eq_none]
        exact Nat.find_min hex hc'
      exact absurd ⟨hout, trivial⟩ (h.blocked hctl hperform)
  | recv comm kind size rank =>
      obtain ⟨-, hrank, hawaiting⟩ := hdue
      refine .inl ⟨hawaiting, fun c hblock => ?_⟩
      rw [hblock.unique hrank]
      by_contra hsome
      obtain ⟨m, hm⟩ := Option.ne_none_iff_exists'.1 hsome
      exact absurd ⟨hout, trivial⟩ (h.blocked hctl ⟨m, hm, rfl, rfl⟩)
  | _ => exact absurd hready id

theorem quiet_down (h : Stuck X B cfg) {c s r : ℕ} (hs : s < X.M) (hblock : InBlock X.M X.N c s)
    {p : Progress} (hquiet : Quiet r s p) (hknows : Knows X.snaps c r s p cfg.shared) :
    (cfg.shared.down s c).next? = none :=
  hquiet.nothing_down h.inv (h.working hs) hblock hknows

/-- Rank 0 has taken all commands and pings of client rank 0, unless it waits itself. -/
theorem root_up (h : Stuck X B cfg) (hdown : (cfg.shared.down 0 0).next? = none) :
    Awaiting X.M X.N X.snaps 0 cfg.shared ∧ (cfg.shared.up 0 0).next? = none := by
  have hs : 0 < X.M := X.one_le_M
  rcases h.sim_blocked hs (fun c hblock => by rwa [hblock.unique X.root]) with hawaiting | hzero
  · exact ⟨hawaiting.1, hawaiting.2 0 X.root⟩
  · exact absurd rfl hzero.1

theorem quiet_up (h : Stuck X B cfg) {c s r : ℕ} (hs : s < X.M) (hblock : InBlock X.M X.N c s)
    {p : Progress} (hquiet : Quiet r s p) (hknows : Knows X.snaps c r s p cfg.shared)
    (harrived : 2 * r ≤ cfg.shared.arrived c) : (cfg.shared.up c s).next? = none := by
  have hdown := h.quiet_down hs hblock hquiet hknows
  by_cases hzero : s = 0
  · subst hzero
    obtain rfl := hblock.unique X.root
    exact (h.root_up hdown).2
  · exact hquiet.nothing_up h.inv hblock hzero hknows harrived

/-- A client rank of which no message waits is not held up. -/
theorem client_blocked (h : Stuck X B cfg) {c : Fin X.N} {o : ClientOp Unit}
    {k : o.Resp → ClientProg Unit ClientLabel} (hctl : cfg.control (.client c) = .vis o k)
    (hup : ∀ s, InBlock X.M X.N c s → (cfg.shared.up c s).next? = none) {r : o.Resp} {w' : World} :
    ¬ performClient X.M X.N c o cfg.shared r w' := by
  intro hperform
  refine h.blocked hctl hperform (fun s => ?_)
  by_cases hblock : InBlock X.M X.N c s
  · rw [Channel.pending_of_next_none (hup s hblock)]
    exact Nat.zero_le _
  · rw [Channel.pending, h.inv.upOwner c s hblock, List.drop_nil]
    exact Nat.zero_le _

/-- What a client rank waits for has not been sent. -/
theorem recv_blocked (h : Stuck X B cfg) {c : Fin X.N} {kind : Kind} {size s : ℕ}
    {k : Bytes → ClientProg Unit ClientLabel}
    (hctl : cfg.control (.client c) = .vis (.recv () kind size s) k)
    (hup : (cfg.shared.down s c).next? ≠ none →
      ∀ s', InBlock X.M X.N c s' → (cfg.shared.up c s').next? = none) :
    (cfg.shared.down s c).next? = none := by
  by_contra hsome
  obtain ⟨m, hm⟩ := Option.ne_none_iff_exists'.1 hsome
  exact h.client_blocked hctl (hup hsome) ⟨m, hm, rfl, rfl⟩

end Stuck

/-- How a client rank waits: for no simulation rank, or for the quit flag, or for a state. -/
theorem Waits.cases {M N : ℕ} {snaps : Snapshots} {c r barriers n b : ℕ} {progress : ℕ → Progress}
    {o : ClientOp Unit} (h : Waits M N snaps c r barriers n b progress o) :
    ((∀ s, Quiet r s (progress s)) ∧ ∀ comm kind size s, o ≠ .recv comm kind size s) ∨
      (∃ size, o = .recv () .quit size 0 ∧ 0 < size ∧ c = 0 ∧ progress 0 = .asking 1 0 ∧
        ∀ s, s ≠ 0 → Quiet r s (progress s)) ∨
      ∃ kind size s, o = .recv () kind size s ∧ b = 2 * r + 1 ∧ InBlock M N c s ∧
        Reading snaps r s size (progress s) ∧ ∀ s', s' ≠ s → Quiet r s' (progress s') := by
  cases o with
  | recv comm kind size s =>
      cases kind with
      | quit =>
          obtain ⟨hsize, hc, rfl, hp, hquiet⟩ := h
          exact .inr (.inl ⟨size, rfl, hsize, hc, hp, hquiet⟩)
      | _ => exact .inr (.inr ⟨_, size, s, rfl, h⟩)
  | leave | bcast buf => exact .inl ⟨h.2, fun comm kind size s hrecv => nomatch hrecv⟩
  | _ => exact .inl ⟨h, fun comm kind size s hrecv => nomatch hrecv⟩

namespace Stuck

theorem quit_down (h : Stuck X B cfg) {c : Fin X.N} {size r barriers : ℕ} {progress : ℕ → Progress}
    {k : Bytes → ClientProg Unit ClientLabel}
    (hctl : cfg.control (.client c) = .vis (.recv () .quit size 0) k)
    (hat : ClientAt X.M X.N X.snaps c r barriers progress cfg.shared)
    (hp : progress 0 = .asking 1 0) (hquiet : ∀ s, s ≠ 0 → Quiet r s (progress s)) :
    (cfg.shared.down 0 c).next? = none := by
  refine h.recv_blocked hctl (fun hsome s hblock => ?_)
  have hs : s < X.M := hblock.lt X.one_le_N c.isLt
  by_cases hzero : s = 0
  · subst hzero
    obtain ⟨m, hm⟩ := Option.ne_none_iff_exists'.1 hsome
    have hknows := hat.knows 0 hblock
    rw [hp] at hknows
    -- the flag is sent when the command has been taken
    have hround : m.round = r := by rw [h.inv.next_quit hknows.rounds hknows.downTaken hm]
    have htaken := (h.working hs).taken_of_mem hblock (List.mem_of_getElem? hm)
    have hsent := hknows.upSent
    rw [Channel.next_none_iff]
    rw [hround] at htaken
    omega
  · refine h.quiet_up hs hblock (hquiet s hzero) (hat.knows s hblock) ?_
    have harrived := hat.arrived
    omega

/-- When a client rank waits for a part of a state, it has not been sent. -/
theorem data_down (h : Stuck X B cfg) {c : Fin X.N} {kind : Kind} {size s r barriers : ℕ}
    {progress : ℕ → Progress} {k : Bytes → ClientProg Unit ClientLabel}
    (hctl : cfg.control (.client c) = .vis (.recv () kind size s) k)
    (hat : ClientAt X.M X.N X.snaps c r barriers progress cfg.shared)
    (hblock : InBlock X.M X.N c s) (hreading : Reading X.snaps r s size (progress s))
    (hquiet : ∀ s', s' ≠ s → Quiet r s' (progress s')) :
    (cfg.shared.down s c).next? = none := by
  refine h.recv_blocked hctl (fun hsome s' hblock' => ?_)
  by_cases hsame : s' = s
  · subst hsame
    exact hreading.taken h.inv (hat.knows s' hblock) hsome
  · have hs' : s' < X.M := hblock'.lt X.one_le_N c.isLt
    refine h.quiet_up hs' hblock' (hquiet s' hsame) (hat.knows s' hblock') ?_
    have harrived := hat.arrived
    omega

theorem nothing_down (h : Stuck X B cfg) {c s : ℕ} (hs : s < X.M) (hblock : InBlock X.M X.N c s) :
    (cfg.shared.down s c).next? = none := by
  have hc := block_client_lt X.one_le_N hs hblock
  cases hctl : cfg.control (.client ⟨c, hc⟩) with
  | ret l =>
      have hat := (h.holds.post hctl).2.2
      exact h.quiet_down hs hblock (.inl rfl) (hat.knows s hblock)
  | vis o k =>
      obtain ⟨r, barriers, n, b, progress, -, hat, -, hwaits⟩ := (h.due_at hctl).1
      have hknows := hat.knows s hblock
      rcases hwaits.cases with ⟨hquiet, -⟩ | ⟨size, rfl, -, -, hp, hquiet⟩ |
        ⟨kind, size, s', rfl, -, hblock', hreading, hquiet⟩
      · exact h.quiet_down hs hblock (hquiet s) hknows
      · by_cases hs0 : s = 0
        · subst hs0
          exact h.quit_down hctl hat hp hquiet
        · exact h.quiet_down hs hblock (hquiet s hs0) hknows
      · by_cases hsame : s = s'
        · subst hsame
          exact h.data_down hctl hat hblock' hreading hquiet
        · exact h.quiet_down hs hblock (hquiet s hsame) hknows

/-- Rank 0 waits, and has announced as many queries as it has been sent commands. -/
theorem root_awaiting (h : Stuck X B cfg) :
    Awaiting X.M X.N X.snaps 0 cfg.shared ∧ (cfg.shared.up 0 0).next? = none :=
  h.root_up (h.nothing_down X.one_le_M X.root)

/-- What rank 0 has announced makes up whole calls. -/
theorem whole_calls (h : Stuck X B cfg) :
    ∃ calls, Polled calls ∧ cfg.shared.simCast = castsOf calls := by
  obtain ⟨calls, ⟨-, hat⟩ | hat⟩ := h.root_awaiting.1
  · refine ⟨calls, hat.polled, ?_⟩
    rw [hat.rootCast rfl, List.append_nil]
  · refine ⟨calls ++ [.query], hat.polled.concat (.inr rfl), ?_⟩
    rw [hat.rootCast rfl, castsOf_append]
    rfl

theorem rounds_of_command (h : Stuck X B cfg) {r : ℕ}
    (hsent : 2 * r < (cfg.shared.up 0 0).sent.length) : r < cfg.shared.rounds.length := by
  obtain ⟨⟨calls, hcases⟩, hnone⟩ := h.root_awaiting
  have htaken := Channel.next_none_iff.1 hnone
  rcases hcases with ⟨-, hat⟩ | hat
  · have hrounds : cfg.shared.rounds = queryCalls calls := by
      rw [World.rounds, hat.rootCast rfl, List.append_nil, castCalls_castsOf hat.polled]
    have hup := hat.up 0 X.root
    rw [perRound, if_pos rfl] at hup
    rw [hrounds]
    omega
  · have hrounds := hat.rounds_grow.length_le
    rw [List.length_append, List.length_singleton] at hrounds
    have hup := hat.up 0 X.root
    rw [perRound, if_pos rfl, quits, if_pos rfl, List.length_singleton] at hup
    omega

/-- A simulation rank whose ping has been sent, in a round that has been announced, has sent its
    state. -/
theorem answered (h : Stuck X B cfg) {c s r : ℕ} (hs : s < X.M) (hblock : InBlock X.M X.N c s)
    (hsent : perRound s * (r + 1) ≤ (cfg.shared.up c s).sent.length)
    (hrounds : r < cfg.shared.rounds.length) :
    (replies X.snaps s (cfg.shared.rounds.take (r + 1))).length ≤
      (cfg.shared.down s c).sent.length := by
  rcases h.sim_blocked hs (fun c' hblock' => h.nothing_down hs hblock') with
    ⟨⟨calls, hcases⟩, hup⟩ | ⟨hne, ⟨calls, hat | hat⟩, hnone⟩
  · have htaken := Channel.next_none_iff.1 (hup c hblock)
    have hperRound := perRound_eq s (queryCalls calls).length
    rcases hcases with ⟨-, hat⟩ | hat
    · refine hat.answered hblock ?_
      have hcount := hat.up c hblock
      refine Nat.le_of_mul_le_mul_left ?_ (perRound_pos s)
      omega
    · refine hat.answered hblock ?_
      have hcount := hat.up c hblock
      have hlt : perRound s * (r + 1) < perRound s * ((queryCalls calls).length + 1) := by
        rw [Nat.mul_succ _ (queryCalls calls).length]
        omega
      exact Nat.le_of_lt_succ (Nat.lt_of_mul_lt_mul_left hlt)
  · -- it has heard of all queries
    have hcast : cfg.shared.simCast = castsOf calls := by
      have hheard := List.getElem?_eq_none_iff.1 hnone
      rw [hat.simHeard hne, List.append_nil] at hheard
      have hgrow := hat.simCast
      rw [List.append_nil] at hgrow
      exact (hgrow.eq_of_length_le hheard).symm
    have hcalls : cfg.shared.rounds = queryCalls calls := by
      rw [World.rounds, hcast, castCalls_castsOf hat.polled]
    refine hat.answered hblock ?_
    rw [← hcalls]
    exact hrounds
  · -- after a flag, rank 0 has announced the command as well
    obtain ⟨calls', hpolled, hwhole⟩ := h.whole_calls
    have hheard := List.getElem?_eq_none_iff.1 hnone
    rw [hat.simHeard hne] at hheard
    have hcast := hat.simCast.eq_of_length_le hheard
    exact absurd (hwhole.symm.trans hcast.symm) (castsOf_ne_flag hat.polled hpolled)

theorem not_reading (h : Stuck X B cfg) {c : Fin X.N} {size s r barriers n b : ℕ}
    {progress : ℕ → Progress}
    (hat : ClientAt X.M X.N X.snaps c r barriers progress cfg.shared)
    (hahead : Ahead X.N X.rounds c n b cfg.shared) (hb : b = 2 * r + 1)
    (hblock : InBlock X.M X.N c s) : ¬ Reading X.snaps r s size (progress s) := by
  intro hreading
  have hs : s < X.M := hblock.lt X.one_le_N c.isLt
  have hknows := hat.knows s hblock
  obtain ⟨got, hch, -⟩ := hreading.channel hknows
  -- client rank 0 has sent the command of the round
  have hcommand := h.asked.1
  have hpassed := hahead.passed 0 X.one_le_N
  have hrounds : r < cfg.shared.rounds.length := h.rounds_of_command (by omega)
  have hsent : perRound s * (r + 1) ≤ (cfg.shared.up c s).sent.length := by
    rw [hch.upSent, Nat.mul_succ]
  have hanswered := h.answered hs hblock hsent hrounds
  have hless := hreading.less hknows hrounds
  have htaken := Channel.next_none_iff.1 (h.nothing_down hs hblock)
  omega

theorem not_asking (h : Stuck X B cfg) {r barriers : ℕ} {progress : ℕ → Progress}
    (hat : ClientAt X.M X.N X.snaps 0 r barriers progress cfg.shared) :
    progress 0 ≠ .asking 1 0 := by
  intro hp
  have hknows := hat.knows 0 X.root
  rw [hp] at hknows
  have hsent := hknows.upSent
  have hgot := hknows.downTaken
  have hdown := Channel.next_none_iff.1 (h.nothing_down X.one_le_M X.root)
  obtain ⟨⟨calls, hcases⟩, hnone⟩ := h.root_awaiting
  have htaken := Channel.next_none_iff.1 hnone
  have hle := h.inv.upTaken 0 0
  rcases hcases with ⟨-, hsim⟩ | hsim
  · -- rank 0 has taken the commands and pings of whole rounds
    have hup := hsim.up 0 X.root
    rw [perRound, if_pos rfl] at hup hsent
    omega
  · have hup := hsim.up 0 X.root
    rw [perRound, if_pos rfl, quits, if_pos rfl, List.length_singleton] at hup
    rw [perRound, if_pos rfl] at hsent
    have hr : (queryCalls calls).length = r := by omega
    have hgrow : queryCalls calls <+: cfg.shared.rounds := queryCalls_grow hsim.calls_grow
    have hout := congrArg List.length (hsim.down 0 X.root)
    rw [List.length_append, quits, if_pos rfl, List.length_singleton] at hout
    have htake : cfg.shared.rounds.take r = queryCalls calls := by
      rw [← hr, hgrow.take_eq (le_refl _), List.take_length]
    rw [htake] at hgot
    omega

/-! ## All ranks come to the end -/

/-- Where a client rank waits for no simulation rank, nothing it has sent is in flight. -/
theorem quiet_ups (h : Stuck X B cfg) {c : Fin X.N} {r barriers : ℕ} {progress : ℕ → Progress}
    (hat : ClientAt X.M X.N X.snaps c r barriers progress cfg.shared)
    (hquiet : ∀ s, Quiet r s (progress s)) (s : ℕ) (hblock : InBlock X.M X.N c s) :
    (cfg.shared.up c s).next? = none := by
  have hs : s < X.M := hblock.lt X.one_le_N c.isLt
  have harrived := hat.arrived
  exact h.quiet_up hs hblock (hquiet s) (hat.knows s hblock) (by omega)

/-- A client rank is at its end, or waits for the others: in a barrier, or for what rank 0
    broadcasts. -/
theorem client_cases (h : Stuck X B cfg) (c : Fin X.N) :
    (∃ l, cfg.control (.client c) = .ret l ∧ X.rounds ≤ l.rounds.length) ∨
      (∃ k, cfg.control (.client c) = .vis .leave k) ∨
      ((c : ℕ) ≠ 0 ∧ ∃ buf k, cfg.control (.client c) = .vis (.bcast buf) k) := by
  cases hctl : cfg.control (.client c) with
  | ret l =>
      exact .inl ⟨l, rfl, h.clients c l hctl⟩
  | vis o k =>
      obtain ⟨⟨r, barriers, n, b, progress, -, hat, hahead, hwaits⟩, hready⟩ := h.due_at hctl
      -- it waits for no simulation rank
      have hquiet : (∀ s, Quiet r s (progress s)) ∧ ∀ comm kind size s, o ≠ .recv comm kind size s := by
        rcases hwaits.cases with hquiet | ⟨size, rfl, -, hc, hasking, -⟩ |
          ⟨kind, size, s, rfl, hb, hblock, hreading, -⟩
        · exact hquiet
        · rw [hc] at hat
          exact absurd hasking (h.not_asking hat)
        · exact absurd hreading (h.not_reading hat hahead hb hblock)
      have hup := h.quiet_ups hat hquiet.1
      cases o with
      | leave => exact .inr (.inl ⟨k, rfl⟩)
      | bcast buf =>
          refine .inr (.inr ⟨fun hc => ?_, buf, k, rfl⟩)
          have hperform : performClient X.M X.N c (.bcast buf) cfg.shared buf
              { cfg.shared with clientCast := cfg.shared.clientCast ++ [buf] } := by
            rw [performClient, if_pos hc]
            exact ⟨rfl, rfl⟩
          exact h.client_blocked hctl hup hperform
      | remoteSize comm => exact absurd ⟨rfl, rfl⟩ (h.client_blocked hctl hup)
      | arrive => exact absurd rfl (h.client_blocked (r := ()) hctl hup)
      | send comm kind data rank => exact absurd rfl (h.client_blocked (r := ()) hctl hup)
      | recv comm kind size s => exact absurd rfl (hquiet.2 comm kind size s)
      | _ => exact absurd hready id

theorem final_at (h : Stuck X B cfg) {c : Fin X.N} {l : ClientLabel}
    (hctl : cfg.control (.client c) = .ret l) (hle : X.rounds ≤ l.rounds.length) :
    l.rounds.length = X.rounds ∧ cfg.shared.arrived c = 2 * X.rounds ∧
      ((c : ℕ) = 0 → cfg.shared.clientCast.length = X.rounds) := by
  obtain ⟨hlength, hahead⟩ := h.settled_at hctl
  have hrounds : l.rounds.length = X.rounds := le_antisymm hlength hle
  have harrived := (h.holds.post hctl).2.2.arrived
  have hcast := hahead.cast
  rw [hrounds] at hcast harrived
  exact ⟨hrounds, harrived, hcast⟩

/-- Where a rank waits in a barrier: somebody has entered fewer. -/
theorem leave_at (h : Stuck X B cfg) {c : Fin X.N} {k : Unit → ClientProg Unit ClientLabel}
    (hctl : cfg.control (.client c) = .vis .leave k) :
    cfg.shared.arrived c ≤ 2 * X.rounds ∧
      ((c : ℕ) = 0 → cfg.shared.arrived c ≤ 2 * cfg.shared.clientCast.length + 1) ∧
      ∃ c' : Fin X.N, cfg.shared.arrived c' < cfg.shared.arrived c := by
  obtain ⟨r, barriers, n, b, progress, hr, hat, hahead, hcount, hquiet⟩ := (h.due_at hctl).1
  have harrived := hat.arrived
  have hcast := hahead.cast
  refine ⟨by omega, by omega, ?_⟩
  have hup := h.quiet_ups hat hquiet
  by_contra hall
  push Not at hall
  exact h.client_blocked (r := ()) hctl hup ⟨fun c' hc' => hall ⟨c', hc'⟩, rfl⟩

/-- Where a rank waits for a broadcast: rank 0 has not made it. -/
theorem bcast_at (h : Stuck X B cfg) {c : Fin X.N} {buf : Bytes}
    {k : Bytes → ClientProg Unit ClientLabel} (hc : (c : ℕ) ≠ 0)
    (hctl : cfg.control (.client c) = .vis (.bcast buf) k) :
    cfg.shared.arrived c < 2 * X.rounds ∧
      2 * cfg.shared.clientCast.length + 1 ≤ cfg.shared.arrived c := by
  obtain ⟨r, barriers, n, b, progress, hr, hat, hahead, ⟨hn, hbarriers⟩, hquiet⟩ :=
    (h.due_at hctl).1
  have harrived := hat.arrived
  have hup := h.quiet_ups hat hquiet
  have hnone : cfg.shared.clientCast[cfg.shared.clientHeard c]? = none := by
    by_contra hsome
    obtain ⟨a, ha⟩ := Option.ne_none_iff_exists'.1 hsome
    have hperform : performClient X.M X.N c (.bcast buf) cfg.shared a { cfg.shared with
        clientHeard := Function.update cfg.shared.clientHeard c (cfg.shared.clientHeard c + 1) } := by
      rw [performClient, if_neg hc]
      exact ⟨ha, rfl⟩
    exact h.client_blocked hctl hup hperform
  have hheard := List.getElem?_eq_none_iff.1 hnone
  rw [hahead.heard hc] at hheard
  omega

/-- The client rank that has entered the fewest barriers is at its end. -/
theorem least_final (h : Stuck X B cfg) {c₀ : Fin X.N}
    (hleast : ∀ c : Fin X.N, cfg.shared.arrived c₀ ≤ cfg.shared.arrived c) :
    ∃ l, cfg.control (.client c₀) = .ret l ∧ X.rounds ≤ l.rounds.length := by
  rcases h.client_cases c₀ with hend | ⟨k, hctl⟩ | ⟨hc, buf, k, hctl⟩
  · exact hend
  · obtain ⟨-, -, c', hless⟩ := h.leave_at hctl
    exact absurd (hleast c') (not_le.2 hless)
  · -- rank 0 cannot be further without its broadcast
    obtain ⟨hlt, hcast⟩ := h.bcast_at hc hctl
    have hroot : 0 < X.N := X.one_le_N
    have hmin := hleast ⟨0, hroot⟩
    rcases h.client_cases ⟨0, hroot⟩ with ⟨l, hctl', hend⟩ | ⟨k', hctl'⟩ | ⟨hzero, -⟩
    · obtain ⟨-, harrived, hall⟩ := h.final_at hctl' hend
      have hlength := hall rfl
      omega
    · obtain ⟨-, hle, c', hless⟩ := h.leave_at hctl'
      have hmin' := hleast c'
      have hle' := hle rfl
      omega
    · exact absurd rfl hzero

theorem final (h : Stuck X B cfg) (c : Fin X.N) :
    ∃ l, cfg.control (.client c) = .ret l ∧ l.rounds.length = X.rounds := by
  have hne : Nonempty (Fin X.N) := ⟨c⟩
  obtain ⟨c₀, hleast⟩ := Finite.exists_min (fun c : Fin X.N => cfg.shared.arrived c)
  obtain ⟨l₀, hctl₀, hend₀⟩ := h.least_final hleast
  obtain ⟨-, harrived, -⟩ := h.final_at hctl₀ hend₀
  rcases h.client_cases c with ⟨l, hctl, hend⟩ | ⟨k, hctl⟩ | ⟨hc, buf, k, hctl⟩
  · exact ⟨l, hctl, (h.final_at hctl hend).1⟩
  · obtain ⟨hle, -, c', hless⟩ := h.leave_at hctl
    have hmin := hleast c'
    omega
  · have hlt := (h.bcast_at hc hctl).1
    have hmin := hleast c
    omega

end Stuck

/-! ## Every run -/

def Party.side {M N : ℕ} : Party M N → Fin M ⊕ Fin N
  | .sim s => .inl s
  | .client c => .inr c

theorem Party.side_injective {M N : ℕ} : Function.Injective (Party.side (M := M) (N := N)) := by
  rintro (s | c) (s' | c') hsame
  · rw [Sum.inl.inj hsame]
  · exact absurd hsame Sum.inl_ne_inr
  · exact absurd hsame Sum.inr_ne_inl
  · rw [Sum.inr.inj hsame]

theorem finite_party {M N : ℕ} : Finite (Party M N) :=
  Finite.of_injective Party.side Party.side_injective

/-- What a call of `process()` is answered may be anything, but the number of simulation ranks that a
    client rank asks for is given. -/
def answers (X : Setup) : (p : Party X.M X.N) → (o : (system X.M X.N X.snaps).Op p) →
    (system X.M X.N X.snaps).Resp p o → Prop
  | .sim _ => ConnectionManager.anyAnswer
  | .client _ => SimulationConnection.answers X.M

/-- What the calls that are left to a rank may cost. -/
def worth (X : Setup) : (p : Party X.M X.N) → (system X.M X.N X.snaps).Label p → ℕ
  | .sim s => fun calls => ∑ k ∈ Finset.Ico calls.length (X.vain + X.rounds + 1),
      (ConnectionManager.processCost (X.snaps s k).messages + 1)
  | .client c => fun l => (X.rounds - l.rounds.length) *
      (SimulationConnection.queryCost X.M X.N c + 1)

theorem performClient_answers {M N c : ℕ} {o : ClientOp Unit} {w : World} {r : o.Resp} {w' : World}
    (h : performClient M N c o w r w') : SimulationConnection.answers M o r := by
  cases o with
  | remoteSize comm => exact h.1
  | _ => trivial

-- what a program costs is not to be computed from what it might be answered
attribute [local irreducible] Costs

theorem sim_costs (X : Setup) (s : Fin X.M) {calls : List Branch}
    (hle : calls.length ≤ X.vain + X.rounds) :
    ∃ n, n < worth X (.sim s) calls ∧ ((system X.M X.N X.snaps).code (.sim s) calls).Costs
      (answers X (.sim s)) (worth X (.sim s)) n := by
  obtain ⟨rest, hrest⟩ : ∃ rest, rest = ∑ k ∈ Finset.Ico (calls.length + 1) (X.vain + X.rounds + 1),
      (ConnectionManager.processCost (X.snaps s k).messages + 1) := ⟨_, rfl⟩
  have hworth : worth X (.sim s) calls =
      ConnectionManager.processCost (X.snaps s calls.length).messages + 1 + rest := by
    rw [hrest]
    exact Finset.sum_eq_sum_Ico_succ_bot (Nat.lt_succ_of_le hle) _
  have hprocess := ConnectionManager.process_costs (m := rest) s (X.snaps s calls.length).messages
  rw [← Snapshot.sends_eq] at hprocess
  refine ⟨_, ?_, Costs.bind hprocess (fun branch => Costs.ret ?_)⟩
  · rw [hworth]
    omega
  · show (∑ k ∈ Finset.Ico (calls ++ [branch]).length (X.vain + X.rounds + 1), _) ≤ rest
    rw [List.length_append, List.length_singleton, hrest]

theorem client_costs (X : Setup) (c : Fin X.N) {l : ClientLabel} (hlt : l.rounds.length < X.rounds) :
    ∃ n, n < worth X (.client c) l ∧ ((system X.M X.N X.snaps).code (.client c) l).Costs
      (answers X (.client c)) (worth X (.client c)) n := by
  obtain ⟨rest, hrest⟩ := Nat.exists_eq_add_of_lt hlt
  have hworth : worth X (.client c) l =
      (rest + 1) * (SimulationConnection.queryCost X.M X.N c + 1) := by
    show (X.rounds - l.rounds.length) * _ = _
    rw [hrest]
    congr 1
    omega
  have hquery := SimulationConnection.query_costs (M := X.M)
    (m := rest * (SimulationConnection.queryCost X.M X.N c + 1)) X.N c l.this
  refine ⟨_, ?_, Costs.bind hquery (fun p => Costs.ret ?_)⟩
  · rw [hworth, Nat.succ_mul]
    omega
  · show (X.rounds - (l.rounds ++ [p.1]).length) * _ ≤ _
    rw [List.length_append, List.length_singleton, hrest]
    refine Nat.mul_le_mul_right _ ?_
    omega

/-- All client ranks have got their regions in every round, and nothing is in flight. -/
structure Answered (X : Setup) (cfg : (patient X).Config) (qs : List ℕ)
    (l : Fin X.N → ClientLabel) : Prop where
  sorted : qs.Pairwise (· < ·)
  returned : ∀ c, cfg.control (.client c) = .ret (l c)
  all : ∀ c, (l c).rounds.length = X.rounds
  rounds : ∀ c : Fin X.N, ClientRounds X.M X.N X.snaps qs c (l c)
  nothing : ∀ (c : Fin X.N) (s : Fin X.M),
    (cfg.shared.up c s).pending = [] ∧ (cfg.shared.down s c).pending = []

theorem Stuck.answers (h : Stuck X B cfg) : ∃ qs l, Answered X cfg qs l := by
  choose l hctl hlength using h.final
  refine ⟨cfg.shared.rounds, l, queryCalls_sorted _, hctl, hlength, fun c => ?_, fun c s => ?_⟩
  · have hpost := h.holds.post (hctl c)
    exact hpost.2.1.clientRounds hpost.1.2
  · by_cases hblock : InBlock X.M X.N c s
    · have hat := (h.holds.post (hctl c)).2.2
      exact ⟨Channel.pending_of_next_none (h.quiet_ups hat (fun _ => .inl rfl) s hblock),
        Channel.pending_of_next_none (h.nothing_down s.isLt hblock)⟩
    · rw [Channel.pending, Channel.pending, h.inv.upOwner c s hblock, h.inv.downOwner s c hblock]
      exact ⟨List.drop_nil, List.drop_nil⟩

/-- **Completion.** When the client ranks call `query()` some number of times, every run of patient
    ranks comes to an end in which all of them have returned from all calls, with the regions of one
    and the same call of `process()` in each round, and nothing is in flight: no rank waits for ever,
    and none runs for ever. -/
theorem queries_complete (X : Setup) :
    (patient X).Inevitably (Final X) (fun cfg => ∃ qs l, Answered X cfg qs l) (patientStart X) := by
  have hfinite : Finite (Party X.M X.N) := finite_party
  refine inevitably_of_costs (Patiently X) (answers X) (worth X) ?_ ?_ ?_ ?_
    (fun p => worth X p (startLabels X.M X.N X.snaps X.conns p)) (patientStart X) ⟨.start⟩
    (fun p => Costs.ret (le_refl _))
  · exact fun cfg cfg' h hstep => ⟨h.reached.step hstep⟩
  · rintro (s | c) o w r w' hperform
    · exact trivial
    · exact performClient_answers hperform.1
  · rintro cfg (s | c) l h hctl hgoes
    · exact sim_costs X s (h.calls_le hctl)
    · exact client_costs X c (not_le.1 hgoes)
  · exact fun cfg h hstuck => (h.stuck hstuck).answers

/-- A client that has just connected, and states without data. -/
def Setup.blank (M N : ℕ) (one_le_M : 1 ≤ M) (one_le_N : 1 ≤ N) (rounds capacity vain : ℕ) : Setup where
  M := M
  N := N
  one_le_M := one_le_M
  one_le_N := one_le_N
  snaps := blankStates
  world := quiet
  started := ⟨fun _ _ => rfl, fun _ _ => rfl, fun _ => rfl, fun _ => rfl, rfl, fun _ => rfl, rfl,
    fun _ => rfl, fun _ => rfl⟩
  conns _ := ⟨some (), 0, ⟨[], StdString.empty_lt⟩⟩
  connected _ := ⟨rfl, rfl⟩
  rounds := rounds
  capacity := capacity
  vain := vain

/-- Three rounds of five simulation ranks and two client ranks, where every send waits for its
    receive and rank 0 finds no command in at most one call. -/
theorem queries_complete_three :
    (patient (Setup.blank 5 2 (by decide) (by decide) 3 0 1)).Inevitably (Final _)
      (fun cfg => ∃ qs l, Answered _ cfg qs l) (patientStart _) :=
  queries_complete _

end QueryRound

end LibIS
