import LibIS.QueryRound.Client
import LibIS.QueryRound.Schedule
import LibIS.QueryRound.Simulation

set_option autoImplicit false

/-! # Rounds of queries: every run

The proof outline is valid, so it holds along every run. What it says about a configuration is put
in the words of the interface here: who gets what from whom, and that no message is taken for
another or outlives its round. -/

open ByteCodec Prog ThreadSystem Proof

namespace LibIS

namespace QueryRound

/-- What has happened to a simulation rank when its calls have ended as in `calls`, where the calls
    `qs` are those that answer a query. -/
structure SimRounds (M N : ℕ) (snaps : Snapshots) (qs : List ℕ) (w : World) (s : ℕ)
    (calls : List Branch) : Prop where
  polled : Polled calls
  queries : queryCalls calls <+: qs
  /-- one client rank has pinged it once in each round and has got the state of each call that
      answered a query, and no other has sent it anything or got anything from it -/
  client : ∃ c, c < N ∧ (s : Int) ∈ queriedRegions M N c ∧
    ((((w.up c s).sent.take (w.up c s).taken).filter (fun m => m.kind = .ping)).map Message.round =
      List.range (queryCalls calls).length) ∧
    ((w.down s c).sent.filter (fun m => m.kind = .data) =
      (queryCalls calls).zipIdx.flatMap (fun p =>
        (snaps s p.1).messages.map (fun m => ⟨.data, m, p.2⟩))) ∧
    ∀ c', c' ≠ c → (w.up c' s).sent = [] ∧ (w.down s c').sent = []

/-- What a client rank has got in its rounds, where the calls `qs` answer a query. -/
structure ClientRounds (M N : ℕ) (snaps : Snapshots) (qs : List ℕ) (c : ℕ) (l : ClientLabel) :
    Prop where
  stays : l.this.simQuit = 0
  rounds : l.rounds.length ≤ qs.length
  /-- the regions of round `r` are the states of call `qs[r]`, in the order they were asked for -/
  regions : ∀ (r : ℕ) (regions : List SimState), l.rounds[r]? = some regions →
    ∃ k : ℕ, qs[r]? = some k ∧ regions.length = (queriedRegions M N c).length ∧
      ∀ (i : ℕ) (region : SimState), regions[i]? = some region →
        ∃ s : ℕ, (queriedRegions M N c)[i]? = some (s : Int) ∧
          region.simRank = Int32.ofNat s ∧ region = (snaps s k).region

section Run

variable {M N : ℕ} {snaps : Snapshots} {w₀ : World} {conns : Fin N → SimulationConnection Unit}

/-- All ranks before their first call. -/
def startLabels (M N : ℕ) (snaps : Snapshots) (conns : Fin N → SimulationConnection Unit) :
    (i : Party M N) → (system M N snaps).Label i
  | .sim _ => []
  | .client c => ⟨conns c, []⟩

theorem Started.inv (h : Started w₀) : Inv M N snaps w₀ := by
  have hrounds : w₀.rounds = [] := by
    rw [World.rounds, h.simCast]
    rfl
  constructor
  · rw [h.simCast]
    exact .nil
  · simp [h.clientCast]
  · intro c s _
    rw [h.up]
    rfl
  · intro c s
    rw [h.up]
    exact Follows.nil _
  · intro c s
    rw [h.up]
    exact le_refl 0
  · intro s c _
    rw [h.down]
    rfl
  · intro s c
    rw [h.down]
    exact List.nil_prefix
  · intro s c m hm
    rw [h.down] at hm
    exact absurd hm (by simp [Channel.empty])
  · intro c s _
    simp [h.arrived, hrounds]

theorem outline_valid (hroot : InBlock M N 0 0) (h : Started w₀)
    (hconns : ∀ c, (conns c).intercomm = some () ∧ (conns c).simQuit = 0) :
    (outline M N snaps).Valid w₀ (startLabels M N snaps conns) where
  inv_start := h.inv
  post_start i := by
    cases i with
    | sim s =>
        exact {
          polled := .nil
          simCast := List.nil_prefix
          rootCast := fun _ => h.simCast
          simHeard := fun _ => h.simHeard s
          down := fun c _ => by rw [h.down]; rfl
          up := fun c _ => by rw [h.up]; rfl
          serving := fun hpos => absurd hpos (lt_irrefl 0)
          intercomm := h.intercomm s
          newQuery := h.newQuery s }
    | client c =>
        refine ⟨hconns c, ⟨Nat.zero_le _, rfl⟩, h.arrived c, Nat.zero_le _, fun _ _ => Nat.zero_le _,
          fun s _ => ⟨Nat.zero_le _, ?_, ?_⟩⟩
        · rw [h.up]
          rfl
        · rw [h.down]
          rfl
  post_stable i l := by
    cases i with
    | sim s => exact fun w w' hpost hrely _ => SimAt.stable hpost hrely
    | client c =>
        intro w w' hpost hrely _
        exact ⟨hpost.1, hpost.2.1.stable hrely, hpost.2.2.stable hrely⟩
  code_safe i l := by
    cases i with
    | sim s => exact Triple.bind (process_triple hroot) (fun _ => Triple.ret (fun _ _ hat => hat))
    | client c =>
        refine Triple.pure (fun hthis => ?_)
        have hresults : ∀ ks ks' : List ℕ, ks <+: ks' →
            (l.rounds.length ≤ ks.length ∧
              l.rounds = (ks.take l.rounds.length).map (roundRegions M N snaps c)) →
            (l.rounds.length ≤ ks'.length ∧
              l.rounds = (ks'.take l.rounds.length).map (roundRegions M N snaps c)) := by
          rintro ks ks' hks ⟨hle, heq⟩
          exact ⟨hle.trans hks.length_le, by rwa [hks.take_eq hle]⟩
        have hquery : (outline M N snaps).Triple (.client c) _ _ _ :=
          Triple.announced hresults (query_triple (R := l.rounds.length) hroot hthis)
        refine Triple.conseq (Triple.bind hquery (fun p => Triple.ret ?_))
          (fun w _ h => ⟨⟨h.1.rounds, h.1.regions⟩, h.2⟩) (fun _ _ _ h => h)
        rintro w - ⟨⟨hle, hprev⟩, ⟨hthis', k, hk, hregions⟩, hat⟩
        obtain ⟨hlt, hget⟩ := List.getElem?_eq_some_iff.1 hk
        have hlen : (l.rounds ++ [p.1]).length = l.rounds.length + 1 := by simp
        refine ⟨hthis', ⟨?_, ?_⟩, ?_⟩
        · rw [hlen]
          exact hlt
        · rw [hlen, List.take_succ_eq_append_getElem hlt, List.map_append, ← hprev, hget, hregions]
          rfl
        · rw [hlen]
          exact hat

/-- What a simulation rank knows, in the words of the interface. -/
theorem SimAt.rounds {w : World} (hinv : Inv M N snaps w) {s : ℕ} {calls : List Branch}
    (hat : SimAt M N snaps s calls [] [] 0 w) (hN : 1 ≤ N) (hs : s < M) :
    SimRounds M N snaps w.rounds w s calls := by
  obtain ⟨c, hc, hblock⟩ := exists_block hN hs
  have hcasts : castsOf calls <+: w.simCast := by simpa using hat.simCast
  refine ⟨hat.polled, queryCalls_grow (le_castCalls hat.polled hcasts), c, hc,
    (mem_queriedRegions M N c s).2 ⟨s, rfl, hblock⟩, ?_, ?_, ?_⟩
  · have htaken : (w.up c s).sent.take (w.up c s).taken =
        (List.range (w.up c s).taken).map (upMessage c s) :=
      (hinv.upFollows c s).take_eq (hinv.upTaken c s)
    rw [htaken, hat.up c hblock, Nat.add_zero]
    exact pings_rounds c s _
  · rw [hat.down c hblock, List.append_nil]
    exact replies_data snaps s _
  · intro c' hne
    have hnot : ¬ InBlock M N c' s := fun h => hne (h.unique hblock)
    exact ⟨hinv.upOwner c' s hnot, hinv.downOwner s c' hnot⟩

/-- What a client rank knows, in the words of the interface. -/
theorem Results.clientRounds {w : World} {c : ℕ} {l : ClientLabel} (hthis : l.this.simQuit = 0)
    (h : Results M N snaps c l.rounds w) : ClientRounds M N snaps w.rounds c l := by
  refine ⟨hthis, h.rounds, fun r regions hr => ?_⟩
  have hget := hr
  rw [h.regions, List.getElem?_map, Option.map_eq_some_iff] at hget
  obtain ⟨k, hk, rfl⟩ := hget
  have hcall : w.rounds[r]? = some k := (List.take_prefix _ _).getElem?_eq_some hk
  refine ⟨k, hcall, by simp [roundRegions, queriedRegions_natCast], fun i region hi => ?_⟩
  rw [roundRegions, List.getElem?_map, Option.map_eq_some_iff] at hi
  obtain ⟨s, hs, rfl⟩ := hi
  refine ⟨s, ?_, rfl, rfl⟩
  rw [queriedRegions_natCast, List.getElem?_map, hs]
  rfl

/-- Of what is in flight, all is of rounds whose closing barrier nobody can have passed. -/
theorem Inv.pending_round {w : World} (hinv : Inv M N snaps w) {c s : ℕ} {m : Message}
    (hm : m ∈ (w.up c s).pending ∨ m ∈ (w.down s c).pending) :
    w.arrived c / 2 ≤ m.round := by
  have hblock : InBlock M N c s := by
    by_contra hnot
    rw [Channel.pending, Channel.pending, hinv.upOwner c s hnot, hinv.downOwner s c hnot] at hm
    simp at hm
  obtain ⟨hle, hdown, hup⟩ := hinv.passed c s hblock
  rcases hm with hm | hm
  · obtain ⟨i, hi⟩ := List.getElem?_of_mem hm
    rw [Channel.pending, List.getElem?_drop] at hi
    rw [hinv.upFollows c s _ m hi, upMessage_round, Nat.le_div_iff_mul_le (perRound_pos s)]
    rw [Nat.mul_comm]
    exact hup.trans (Nat.le_add_right _ _)
  · exact round_le_of_mem_drop snaps s w.rounds _
      (Channel.mem_drop_of_mem_pending (hinv.downReplies s c) hdown hm) hle

/-- **Rounds of queries.** Along every run of `M` simulation ranks and `N` client ranks there are
    calls `qs` of `process()` such that: every simulation rank has been pinged once in each round,
    by one client rank, and has sent it, and nobody else, the states of these calls; every client
    rank has got in round `r` the states of call `qs[r]` from the ranks it asked, in order; a rank
    that is due to receive finds a message of the kind and size it expects; no rank fails; and once
    a client rank has passed the closing barrier of a round, no message of the round is in flight.
    -/
theorem query_rounds (M N : ℕ) (hM : 1 ≤ M) (hN : 1 ≤ N) (snaps : Snapshots) (w₀ : World)
    (hstart : Started w₀) (conns : Fin N → SimulationConnection Unit)
    (hconns : ∀ c, (conns c).intercomm = some () ∧ (conns c).simQuit = 0)
    (cfg : (system M N snaps).Config)
    (hcfg : (system M N snaps).Reachable
      ((system M N snaps).start w₀ (startLabels M N snaps conns)) cfg) :
    ∃ qs : List ℕ, qs.Pairwise (· < ·) ∧
      (∀ s calls, cfg.control (.sim s) = .ret calls →
        SimRounds M N snaps qs cfg.shared s calls) ∧
      (∀ c l, cfg.control (.client c) = .ret l → ClientRounds M N snaps qs c l) ∧
      (∀ s kind size rank k, cfg.control (.sim s) = .vis (.recv () kind size rank) k →
        ∀ m, (cfg.shared.up rank s).next? = some m → m.kind = kind ∧ m.data.length = size) ∧
      (∀ c kind size rank k, cfg.control (.client c) = .vis (.recv () kind size rank) k →
        ∀ m, (cfg.shared.down rank c).next? = some m → m.kind = kind ∧ m.data.length = size) ∧
      (∀ s k, cfg.control (.sim s) ≠ .vis .crash k) ∧
      (∀ c k, cfg.control (.client c) ≠ .vis .crash k ∧
        ∀ e k, cfg.control (.client c) ≠ .vis (.throw e) k) ∧
      (∀ c l, cfg.control (.client c) = .ret l → ∀ (c' : Fin N) (s : Fin M) m,
        m ∈ (cfg.shared.up c' s).pending ∨ m ∈ (cfg.shared.down s c').pending →
        l.rounds.length ≤ m.round) := by
  have hroot := inBlock_zero hM hN
  have hvalid : (outline M N snaps).Valid w₀ (startLabels M N snaps conns) :=
    outline_valid hroot hstart hconns
  have hholds := sound hvalid hcfg
  refine ⟨cfg.shared.rounds, queryCalls_sorted _, ?_, ?_, ?_, ?_, ?_, ?_, ?_⟩
  · intro s calls hctl
    exact SimAt.rounds hholds.inv (hholds.post hctl) hN s.isLt
  · intro c l hctl
    have hpost := hholds.post hctl
    exact hpost.2.1.clientRounds hpost.1.2
  · intro s kind size rank k hctl
    exact hholds.ready hctl
  · intro c kind size rank k hctl
    exact hholds.ready hctl
  · intro s k hctl
    exact hholds.ready hctl
  · intro c k
    exact ⟨fun hctl => hholds.ready hctl, fun e k hctl => hholds.ready hctl⟩
  · intro c l hctl c' s m hm
    have hpost := hholds.post hctl
    have harrived := hpost.2.2.others c' c'.isLt
    have hround := hholds.inv.pending_round hm
    omega

end Run

/-- States without data. -/
def blankStates : Snapshots := fun _ _ =>
  { calls := [], mem := fun _ => 0, order := [], iterates := Snapshot.noBuffers_iterates,
    size_lt := Snapshot.noBuffers_lt }

/-- All ranks are connected. -/
def quiet : World where
  up := fun _ _ => .empty
  down := fun _ _ => .empty
  manager := fun _ => ⟨some (), ⟨[], StdString.empty_lt⟩, -1, false⟩
  serving := fun _ => 0
  simCast := []
  simHeard := fun _ => 0
  clientCast := []
  clientHeard := fun _ => 0
  arrived := fun _ => 0

/-- On each rank and in each call, one particle of another value. -/
def countingStates : Snapshots := fun s k =>
  { calls := [.particles 1 0 1 0], mem := fun _ => UInt8.ofNat (16 * s + k), order := [],
    iterates := Snapshot.noBuffers_iterates, size_lt := Snapshot.noBuffers_lt }

/-- Two simulation ranks and two client ranks, connected. -/
def pairStart : (system 2 2 countingStates).Config :=
  (system 2 2 countingStates).start quiet
    (startLabels 2 2 countingStates (fun _ => ⟨some (), 0, ⟨[], StdString.empty_lt⟩⟩))

/-- The configuration after a schedule. -/
def after (schedule : List (Party 2 2 × ℕ)) : (system 2 2 countingStates).Config :=
  schedule.foldl ((system 2 2 countingStates).turn (answerParty 2 2 countingStates)) pairStart

theorem after_reachable (schedule : List (Party 2 2 × ℕ)) :
    (system 2 2 countingStates).Reachable pairStart (after schedule) :=
  Reachable.turns answerParty_perform .start schedule

/-- A call without a command, and a round. -/
def oneRound : List (Party 2 2 × ℕ) :=
  [(.sim 0, 20), (.client 0, 20), (.client 1, 20), (.sim 0, 20), (.client 0, 20), (.client 1, 20),
    (.client 0, 20), (.sim 0, 20), (.sim 1, 20), (.sim 1, 20), (.client 1, 20), (.client 0, 20),
    (.client 1, 20)]

theorem quiet_started : Started quiet :=
  ⟨fun _ _ => rfl, fun _ _ => rfl, fun _ => rfl, fun _ => rfl, rfl, fun _ => rfl, rfl,
    fun _ => rfl, fun _ => rfl⟩

theorem query_rounds_answered :
    ∃ qs : List ℕ,
      (∀ s : Fin 2, SimRounds 2 2 countingStates qs (after oneRound).shared s [.idle, .query]) ∧
      ∀ c, ∃ l, (after oneRound).control (.client c) = .ret l ∧ l.rounds.length = 1 ∧
        ClientRounds 2 2 countingStates qs c l := by
  obtain ⟨qs, -, hsims, hclients, -⟩ := query_rounds 2 2 (by decide) (by decide) countingStates quiet
    quiet_started _ (fun _ => ⟨rfl, rfl⟩) (after oneRound) (after_reachable oneRound)
  have hends : ∀ s : Fin 2, ((after oneRound).control (.sim s)).result? = some [.idle, .query] := by
    decide +kernel
  have hrounds : ∀ c : Fin 2,
      ((after oneRound).control (.client c)).result?.map (fun l => l.rounds.length) = some 1 := by
    decide +kernel
  refine ⟨qs, fun s => hsims s _ (result?_eq_some (hends s)), fun c => ?_⟩
  obtain ⟨l, hl, hone⟩ := Option.map_eq_some_iff.1 (hrounds c)
  exact ⟨l, result?_eq_some hl, hone, hclients c l (result?_eq_some hl)⟩

end QueryRound

end LibIS
