import LibIS.SocketRounds.Refinement
import LibIS.SocketRounds.Schedule

set_option autoImplicit false

/-! # Rounds of queries over sockets: every run

What holds of the rounds of queries message by message holds over sockets, whichever part of its
data each system call moves and whatever the other ranks do in between. -/

open ByteCodec Prog ThreadSystem Channel

namespace LibIS

namespace SocketRounds

open QueryRound (Party Setup Snapshots Message Reached ClientLabel ClientRounds Polled queryCalls
  queryCalls_grow perRound upMessage upMessage_command upMessage_ping quits reply replies
  replies_concat replies_grow SimAt)

/-- The start of a run, message by message. -/
def World.messages (w : World) : QueryRound.World where
  up _ _ := .empty
  down _ _ := .empty
  manager := w.manager
  serving _ := 0
  simCast := w.simCast
  simHeard := w.simHeard
  clientCast := w.clientCast
  clientHeard := w.clientHeard
  arrived := w.arrived

theorem Started.messages {w : World} (h : Started w) : QueryRound.Started w.messages :=
  ⟨fun _ _ => rfl, fun _ _ => rfl, h.intercomm, h.newQuery, h.simCast, h.simHeard, h.clientCast,
    h.clientHeard, h.arrived⟩

/-- What a message-level configuration `cfg` says about the configuration `cfg'` over sockets. -/
structure Matches {M N : ℕ} {snaps : Snapshots} (cfg : (QueryRound.system M N snaps).Config)
    (cfg' : (system M N snaps).Config) : Prop where
  /-- the bytes on a socket are those of the messages, up to what the sender is about to write and
      the receiver has read of the next message -/
  down : ∀ s c, ∃ owed got,
    (cfg'.shared.down s c).Carries Message.data (cfg.shared.down s c) owed got
  up : ∀ c s, ∃ owed got,
    (cfg'.shared.up c s).Carries Message.data (cfg.shared.up c s) owed got
  /-- between two calls of a rank, there is nothing that it is about to write or has read in part -/
  sim : ∀ s calls, cfg'.control (.sim s) = .ret calls → cfg.control (.sim s) = .ret calls ∧
    ∀ c, (cfg'.shared.down s c).sent = (cfg.shared.down s c).sent.flatMap Message.data ∧
      (cfg'.shared.up c s).sent.take (cfg'.shared.up c s).taken =
        ((cfg.shared.up c s).sent.take (cfg.shared.up c s).taken).flatMap Message.data
  client : ∀ c l, cfg'.control (.client c) = .ret l → cfg.control (.client c) = .ret l ∧
    ∀ s, (cfg'.shared.up c s).sent = (cfg.shared.up c s).sent.flatMap Message.data ∧
      (cfg'.shared.down s c).sent.take (cfg'.shared.down s c).taken =
        ((cfg.shared.down s c).sent.take (cfg.shared.down s c).taken).flatMap Message.data
  /-- what is no transfer is due message by message as well -/
  simCall : ∀ s o k, cfg'.control (.sim s) = .vis (.call o) k →
    ∃ k', cfg.control (.sim s) = .vis o k'
  clientCall : ∀ c o k, cfg'.control (.client c) = .vis (.call o) k →
    ∃ k', cfg.control (.client c) = .vis o k'
  /-- what is read is of the message that is due -/
  simRecv : ∀ s rank n k, cfg'.control (.sim s) = .vis (.recv rank n) k →
    ∃ kind size k', cfg.control (.sim s) = .vis (.recv () kind size rank) k' ∧ 0 < n ∧ n ≤ size
  clientRecv : ∀ c rank n k, cfg'.control (.client c) = .vis (.recv rank n) k →
    ∃ kind size k', cfg.control (.client c) = .vis (.recv () kind size rank) k' ∧ 0 < n ∧ n ≤ size
  manager : cfg'.shared.manager = cfg.shared.manager
  simCast : cfg'.shared.simCast = cfg.shared.simCast
  clientCast : cfg'.shared.clientCast = cfg.shared.clientCast
  arrived : cfg'.shared.arrived = cfg.shared.arrived

section Run

variable {X : Setup} {cfg' : (system X.M X.N X.snaps).Config}

theorem Stands.matches {u : Underway} {cfg : (QueryRound.system X.M X.N X.snaps).Config}
    (h : Stands u cfg cfg') : Matches cfg cfg' := by
  refine {
    down := fun s c => ⟨_, _, h.links.down s c⟩
    up := fun c s => ⟨_, _, h.links.up c s⟩
    sim := fun s calls hctl => ?_
    client := fun c l hctl => ?_
    simCall := fun s o k hctl => ?_
    clientCall := fun c o k hctl => ?_
    simRecv := fun s rank n k hctl => ?_
    clientRecv := fun c rank n k hctl => ?_
    manager := h.links.manager
    simCast := h.links.simCast
    clientCast := h.links.clientCast
    arrived := h.links.arrived }
  · obtain ⟨hq, hnil, hunread⟩ := h.label_sim (h.settled _) hctl
    refine ⟨hq, fun c => ⟨?_, ?_⟩⟩
    · have hsent := (h.links.down s c).sent
      rwa [hnil, List.append_nil] at hsent
    · have htaken := (h.links.up c s).taken
      rwa [hunread, List.append_nil] at htaken
  · obtain ⟨hq, hnil, hunread⟩ := h.label_client (h.settled _) hctl
    refine ⟨hq, fun s => ⟨?_, ?_⟩⟩
    · have hsent := (h.links.up c s).sent
      rwa [hnil, List.append_nil] at hsent
    · have htaken := (h.links.down s c).taken
      rwa [hunread, List.append_nil] at htaken
  · have hstage := h.stage_sim (h.settled (.sim s))
    rw [hctl] at hstage
    cases hstage with
    | calling hnil hq hsource hsend => exact ⟨_, hq⟩
  · have hstage := h.stage_client (h.settled (.client c))
    rw [hctl] at hstage
    cases hstage with
    | calling hnil hq hsource hsend => exact ⟨_, hq⟩
  · have hstage := h.stage_sim (h.settled (.sim s))
    rw [hctl] at hstage
    cases hstage with
    | reading hnil hq hlt => exact ⟨_, _, _, hq, Nat.sub_pos_of_lt hlt, Nat.sub_le _ _⟩
  · have hstage := h.stage_client (h.settled (.client c))
    rw [hctl] at hstage
    cases hstage with
    | reading hnil hq hlt => exact ⟨_, _, _, hq, Nat.sub_pos_of_lt hlt, Nat.sub_le _ _⟩

theorem Tracks.matches (h : Tracks X cfg') : ∃ cfg, Reached X cfg ∧ Matches cfg cfg' := by
  obtain ⟨u, cfg, h⟩ := h
  exact ⟨cfg, h.reached, h.matches⟩

end Run

section Start

variable {M N : ℕ} {snaps : Snapshots} {w₀ : World} {conns : Fin N → SimulationConnection Unit}

/-- The ranks and their client, before the first call. -/
def setup (hM : 1 ≤ M) (hN : 1 ≤ N) (snaps : Snapshots) (hstart : Started w₀)
    (hconns : ∀ c, (conns c).intercomm = some () ∧ (conns c).simQuit = 0) : Setup where
  M := M
  N := N
  one_le_M := hM
  one_le_N := hN
  snaps := snaps
  world := w₀.messages
  started := hstart.messages
  conns := conns
  connected := hconns
  rounds := 0
  capacity := 0
  vain := 0

/-- All ranks before their first call. -/
def startLabels (M N : ℕ) (snaps : Snapshots) (conns : Fin N → SimulationConnection Unit) :
    (p : Party M N) → (system M N snaps).Label p
  | .sim _ => []
  | .client c => ⟨conns c, []⟩

variable (hM : 1 ≤ M) (hN : 1 ≤ N) (hstart : Started w₀)
  (hconns : ∀ c, (conns c).intercomm = some () ∧ (conns c).simQuit = 0)
include hM hN hstart hconns

/-- Before the first call, no transfer is under way. -/
theorem stands_start : Stands (X := setup hM hN snaps hstart hconns)
    ⟨fun _ => [], fun _ _ => [], fun _ => [], fun _ _ => []⟩
    ((QueryRound.system M N snaps).start w₀.messages (QueryRound.startLabels M N snaps conns))
    ((system M N snaps).start w₀ (startLabels M N snaps conns)) := by
  refine ⟨{
    reached := .start
    links := {
      down := fun s c => ?_
      up := fun c s => ?_
      manager := rfl
      simCast := rfl
      simHeard := rfl
      clientCast := rfl
      clientHeard := rfl
      arrived := rfl }
    sims := fun s => Amid.opening rfl
    clients := fun c => Amid.opening rfl },
    ⟨fun c s => Nat.succ_pos 3, fun c => ⟨0, fun _ _ => rfl⟩⟩, ?_⟩
  · exact hstart.down s c ▸ Carries.empty
  · exact hstart.up c s ▸ Carries.empty
  · rintro (s | c)
    · exact fun comm kind data rank k heq => nomatch heq
    · exact fun comm kind rank k heq => nomatch heq

theorem tracks_reachable {cfg : (system M N snaps).Config}
    (hcfg : (system M N snaps).Reachable
      ((system M N snaps).start w₀ (startLabels M N snaps conns)) cfg) :
    Tracks (setup hM hN snaps hstart hconns) cfg := by
  induction hcfg with
  | start => exact ⟨_, _, stands_start hM hN hstart hconns⟩
  | step _ hstep ih => exact ih.step hstep

end Start

/-- **Refinement.** Along every run over sockets, whatever part of its data each system call moves,
    the ranks are where a run of the message-level ranks can come to as well: a rank that is between
    two calls, or due to do something that is no transfer, is there in both; the manager of each
    simulation rank, what has been broadcast and the barriers are the same; and the bytes on each
    socket are those of the messages on its channel. -/
theorem sockets_refine (M N : ℕ) (hM : 1 ≤ M) (hN : 1 ≤ N) (snaps : Snapshots) (w₀ : World)
    (hstart : Started w₀) (conns : Fin N → SimulationConnection Unit)
    (hconns : ∀ c, (conns c).intercomm = some () ∧ (conns c).simQuit = 0)
    (cfg' : (system M N snaps).Config)
    (hcfg : (system M N snaps).Reachable
      ((system M N snaps).start w₀ (startLabels M N snaps conns)) cfg') :
    ∃ cfg : (QueryRound.system M N snaps).Config,
      (QueryRound.system M N snaps).Reachable ((QueryRound.system M N snaps).start w₀.messages
        (QueryRound.startLabels M N snaps conns)) cfg ∧
      Matches cfg cfg' :=
  (tracks_reachable hM hN hstart hconns hcfg).matches

/-- All ranks are connected by sockets. -/
def quiet : World where
  up := fun _ _ => .empty
  down := fun _ _ => .empty
  manager := fun _ => ⟨some (), ⟨[], StdString.empty_lt⟩, -1, false⟩
  simCast := []
  simHeard := fun _ => 0
  clientCast := []
  clientHeard := fun _ => 0
  arrived := fun _ => 0

theorem quiet_started : Started quiet :=
  ⟨fun _ _ => rfl, fun _ _ => rfl, fun _ => rfl, fun _ => rfl, rfl, fun _ => rfl, rfl,
    fun _ => rfl, fun _ => rfl⟩

/-- Two simulation ranks and two client ranks. -/
def pairStart : (system 2 2 QueryRound.countingStates).Config :=
  (system 2 2 QueryRound.countingStates).start quiet
    (startLabels 2 2 QueryRound.countingStates (fun _ => ⟨some (), 0, ⟨[], StdString.empty_lt⟩⟩))

/-- The configuration after a schedule. -/
def after (schedule : List (Party 2 2 × ℕ)) : (system 2 2 QueryRound.countingStates).Config :=
  schedule.foldl ((system 2 2 QueryRound.countingStates).turn
    (answerParty 2 2 QueryRound.countingStates)) pairStart

theorem after_reachable (schedule : List (Party 2 2 × ℕ)) :
    (system 2 2 QueryRound.countingStates).Reachable pairStart (after schedule) :=
  Reachable.turns answerParty_perform .start schedule

/-- The round of before, with more system calls. -/
def oneRound : List (Party 2 2 × ℕ) :=
  QueryRound.oneRound.map (fun t => (t.1, 100 * t.2))

theorem oneRound_sims (s : Fin 2) : (after oneRound).control (.sim s) = .ret [.idle, .query] := by
  have hends : ∀ s : Fin 2, ((after oneRound).control (.sim s)).result? = some [.idle, .query] := by
    decide +kernel
  exact result?_eq_some (hends s)

theorem oneRound_clients (c : Fin 2) :
    ∃ l, (after oneRound).control (.client c) = .ret l ∧ l.rounds.length = 1 := by
  have hrounds : ∀ c : Fin 2,
      ((after oneRound).control (.client c)).result?.map (fun l => l.rounds.length) = some 1 := by
    decide +kernel
  obtain ⟨l, hl, hone⟩ := Option.map_eq_some_iff.1 (hrounds c)
  exact ⟨l, result?_eq_some hl, hone⟩

/-- After a round, the ranks stand where the messages bring them. -/
theorem sockets_refine_answered :
    ∃ cfg : (QueryRound.system 2 2 QueryRound.countingStates).Config,
      (QueryRound.system 2 2 QueryRound.countingStates).Reachable
          ((QueryRound.system 2 2 QueryRound.countingStates).start quiet.messages
            (QueryRound.startLabels 2 2 QueryRound.countingStates
              (fun _ => ⟨some (), 0, ⟨[], StdString.empty_lt⟩⟩))) cfg ∧
        Matches cfg (after oneRound) ∧
        (∀ s : Fin 2, (after oneRound).control (.sim s) = .ret [.idle, .query]) ∧
        ∀ c : Fin 2, ∃ l, (after oneRound).control (.client c) = .ret l ∧ l.rounds.length = 1 := by
  obtain ⟨cfg, hreached, hmatches⟩ := sockets_refine 2 2 (by decide) (by decide)
    QueryRound.countingStates quiet quiet_started _ (fun _ => ⟨rfl, rfl⟩) (after oneRound)
    (after_reachable oneRound)
  exact ⟨cfg, hreached, hmatches, oneRound_sims, oneRound_clients⟩

/-! ## What goes over the sockets -/

/-- What client rank `c` sends simulation rank `s` in a round. -/
def requestBytes (c s : ℕ) : Bytes :=
  (if s = 0 then intBytes Command.query.toInt32 else []) ++ intBytes (Int32.ofNat c)

/-- What simulation rank `s` sends its client rank in a round, if its call number `k` answers it. -/
def replyBytes (snaps : Snapshots) (s k : ℕ) : Bytes :=
  (if s = 0 then intBytes 0 else []) ++ (snaps s k).messages.flatten

theorem upMessages_bytes (c s n : ℕ) :
    ((List.range (perRound s * n)).map (upMessage c s)).flatMap Message.data =
      (List.replicate n (requestBytes c s)).flatten := by
  induction n with
  | zero => rfl
  | succ n ih =>
      have hping : upMessage c s (perRound s * n + (quits s n).length) =
          ⟨.ping, intBytes (Int32.ofNat c), n⟩ := upMessage_ping c s n
      have hlast : ((List.range (perRound s)).map
          (fun i => upMessage c s (perRound s * n + i))).flatMap Message.data =
          requestBytes c s := by
        by_cases hs : s = 0
        · subst hs
          have hcommand := upMessage_command c n
          simp only [perRound, quits, if_true, List.length_singleton] at hping hcommand ⊢
          simp [List.range_succ, hping, hcommand, requestBytes]
        · simp only [perRound, quits, if_neg hs, List.length_nil, Nat.add_zero, one_mul] at hping ⊢
          simp [List.range_succ, hping, requestBytes, hs]
      rw [Nat.mul_succ, List.range_add, List.map_append, List.flatMap_append, ih,
        List.replicate_succ', List.flatten_append, List.map_map, List.flatten_singleton]
      exact congrArg _ hlast

theorem replies_bytes (snaps : Snapshots) (s : ℕ) (ks : List ℕ) :
    (replies snaps s ks).flatMap Message.data = ks.flatMap (replyBytes snaps s) := by
  induction ks using List.reverseRecOn with
  | nil => rfl
  | append_singleton ks k ih =>
      have hquits : (quits s ks.length).flatMap Message.data =
          if s = 0 then intBytes 0 else [] := by
        unfold quits
        split <;> rfl
      have hstate : ((snaps s k).messages.map (fun m => (⟨.data, m, ks.length⟩ : Message))).flatMap
          Message.data = (snaps s k).messages.flatten := by
        rw [List.flatMap_map]
        exact List.flatMap_id
      rw [replies_concat, reply, List.flatMap_append, List.flatMap_append, List.flatMap_append, ih,
        hquits, hstate, List.flatMap_singleton]
      rfl

/-- What has gone over the sockets of simulation rank `s` when its calls have ended as in `calls`,
    where the calls `qs` answer a query: one client rank has asked it once in each round, and has
    been sent the state of each call that answered. -/
structure SimTranscript (M N : ℕ) (snaps : Snapshots) (qs : List ℕ) (w : World) (s : ℕ)
    (calls : List Branch) : Prop where
  polled : Polled calls
  queries : queryCalls calls <+: qs
  client : ∃ c, c < N ∧ (s : Int) ∈ queriedRegions M N c ∧
    (w.up c s).sent.take (w.up c s).taken =
      (List.replicate (queryCalls calls).length (requestBytes c s)).flatten ∧
    (w.down s c).sent = (queryCalls calls).flatMap (replyBytes snaps s) ∧
    ∀ c', c' ≠ c → (w.up c' s).sent = [] ∧ (w.down s c').sent = []

/-- What has gone over the sockets of client rank `c` after its rounds: it has asked each of its
    simulation ranks once in each, and has read the states of the calls that answered, and no more.
    -/
structure ClientTranscript (M N : ℕ) (snaps : Snapshots) (qs : List ℕ) (w : World) (c : ℕ)
    (l : ClientLabel) : Prop where
  rounds : ClientRounds M N snaps qs c l
  sims : ∀ s : ℕ, (s : Int) ∈ queriedRegions M N c →
    (w.up c s).sent = (List.replicate l.rounds.length (requestBytes c s)).flatten ∧
      (w.down s c).sent.take (w.down s c).taken =
        (qs.take l.rounds.length).flatMap (replyBytes snaps s)

section Transcripts

variable {X : Setup} {cfg : (QueryRound.system X.M X.N X.snaps).Config}
  {cfg' : (system X.M X.N X.snaps).Config}

theorem Matches.sim_transcript (h : Matches cfg cfg') (hreached : Reached X cfg) {s : Fin X.M}
    {calls : List Branch} (hctl : cfg'.control (.sim s) = .ret calls) :
    SimTranscript X.M X.N X.snaps cfg.shared.rounds cfg'.shared s calls := by
  obtain ⟨hq, hbytes⟩ := h.sim s calls hctl
  have hholds := QueryRound.reached_holds hreached
  have hat : SimAt X.M X.N X.snaps s calls [] [] 0 cfg.shared := hholds.post hq
  obtain ⟨c, hc, hblock⟩ := exists_block X.one_le_N s.isLt
  refine ⟨hat.polled, queryCalls_grow hat.calls_grow, c, hc,
    (mem_queriedRegions X.M X.N c s).2 ⟨s, rfl, hblock⟩, ?_, ?_, ?_⟩
  · rw [(hbytes c).2, (hholds.inv.upFollows c s).take_eq (hholds.inv.upTaken c s), hat.up c hblock,
      Nat.add_zero, upMessages_bytes]
  · rw [(hbytes c).1, hat.down c hblock, List.append_nil, replies_bytes]
  · intro c' hne
    have hnot : ¬ InBlock X.M X.N c' s := fun hblock' => hne (hblock'.unique hblock)
    constructor
    · obtain ⟨owed, got, hcarries⟩ := h.up c' s
      have hsent := hcarries.sent
      rw [hholds.inv.upOwner c' s hnot, List.flatMap_nil] at hsent
      exact (List.append_eq_nil_iff.1 hsent).1
    · rw [(hbytes c').1, hholds.inv.downOwner s c' hnot, List.flatMap_nil]

theorem Matches.client_transcript (h : Matches cfg cfg') (hreached : Reached X cfg) {c : Fin X.N}
    {l : ClientLabel} (hctl : cfg'.control (.client c) = .ret l) :
    ClientTranscript X.M X.N X.snaps cfg.shared.rounds cfg'.shared c l := by
  obtain ⟨hq, hbytes⟩ := h.client c l hctl
  have hholds := QueryRound.reached_holds hreached
  obtain ⟨hthis, hresults, hat⟩ := hholds.post hq
  refine ⟨hresults.clientRounds hthis.2, fun s hs => ?_⟩
  obtain ⟨s', hs', hblock⟩ := (mem_queriedRegions X.M X.N c s).1 hs
  obtain rfl : s = s' := Int.ofNat_inj.1 hs'
  obtain ⟨hrounds, hup, hdown⟩ :
    QueryRound.ChannelAt X.snaps c s l.rounds.length 0 0 cfg.shared := hat.knows s hblock
  constructor
  · have hsent := (hholds.inv.upFollows c s).take_eq (le_refl _)
    rw [List.take_length, hup, Nat.add_zero] at hsent
    rw [(hbytes s).1, hsent, upMessages_bytes]
  · -- what it has taken are the replies of its rounds
    have hgrow : replies X.snaps s (cfg.shared.rounds.take l.rounds.length) <+:
        replies X.snaps s cfg.shared.rounds ++ quits s cfg.shared.rounds.length :=
      (replies_grow X.snaps s (List.take_prefix _ _)).trans (List.prefix_append _ _)
    have hbegins := (List.take_prefix (cfg.shared.down s c).taken _).trans
      (hholds.inv.downReplies s c)
    obtain ⟨owed, got, hcarries⟩ := h.down s c
    have hlength : ((cfg.shared.down s c).sent.take (cfg.shared.down s c).taken).length =
        (replies X.snaps s (cfg.shared.rounds.take l.rounds.length)).length := by
      rw [List.length_take_of_le hcarries.read_le, hdown, Nat.add_zero]
    have htake := (List.prefix_of_prefix_length_le hbegins hgrow hlength.le).eq_of_length hlength
    rw [(hbytes s).2, htake, replies_bytes]

end Transcripts

/-- **Rounds of queries over sockets.** Along every run of `M` simulation ranks and `N` client ranks
    over sockets, whatever part of its data each system call moves, there are calls `qs` of
    `process()` such that: what has gone over the sockets of a rank between two calls are the
    requests and the states of these calls, byte for byte; every client rank has got in round `r`
    the states of call `qs[r]` from the ranks it asked, in order; and no rank fails. -/
theorem socket_rounds (M N : ℕ) (hM : 1 ≤ M) (hN : 1 ≤ N) (snaps : Snapshots) (w₀ : World)
    (hstart : Started w₀) (conns : Fin N → SimulationConnection Unit)
    (hconns : ∀ c, (conns c).intercomm = some () ∧ (conns c).simQuit = 0)
    (cfg' : (system M N snaps).Config)
    (hcfg : (system M N snaps).Reachable
      ((system M N snaps).start w₀ (startLabels M N snaps conns)) cfg') :
    ∃ qs : List ℕ, qs.Pairwise (· < ·) ∧
      (∀ s calls, cfg'.control (.sim s) = .ret calls →
        SimTranscript M N snaps qs cfg'.shared s calls) ∧
      (∀ c l, cfg'.control (.client c) = .ret l →
        ClientTranscript M N snaps qs cfg'.shared c l) ∧
      (∀ s k, cfg'.control (.sim s) ≠ .vis (.call .crash) k) ∧
      (∀ c k, cfg'.control (.client c) ≠ .vis (.call .crash) k) ∧
      (∀ c e k, cfg'.control (.client c) ≠ .vis (.call (.throw e)) k) := by
  obtain ⟨cfg, hreached, hmatches⟩ := (tracks_reachable hM hN hstart hconns hcfg).matches
  have hholds := QueryRound.reached_holds hreached
  refine ⟨cfg.shared.rounds, QueryRound.queryCalls_sorted _,
    fun s calls hctl => hmatches.sim_transcript hreached hctl,
    fun c l hctl => hmatches.client_transcript hreached hctl, ?_, ?_, ?_⟩
  · intro s k hctl
    obtain ⟨k', hq⟩ := hmatches.simCall s _ k hctl
    exact hholds.ready hq
  · intro c k hctl
    obtain ⟨k', hq⟩ := hmatches.clientCall c _ k hctl
    exact hholds.ready hq
  · intro c e k hctl
    obtain ⟨k', hq⟩ := hmatches.clientCall c _ k hctl
    exact hholds.ready hq

/-- After a round, what has gone over every socket is one request and one reply. -/
theorem socket_rounds_answered :
    ∃ qs : List ℕ,
      (∀ s : Fin 2, SimTranscript 2 2 QueryRound.countingStates qs (after oneRound).shared s
        [.idle, .query]) ∧
      ∀ c, ∃ l, (after oneRound).control (.client c) = .ret l ∧ l.rounds.length = 1 ∧
        ClientTranscript 2 2 QueryRound.countingStates qs (after oneRound).shared c l := by
  obtain ⟨qs, -, hsims, hclients, -⟩ := socket_rounds 2 2 (by decide) (by decide)
    QueryRound.countingStates quiet quiet_started _ (fun _ => ⟨rfl, rfl⟩) (after oneRound)
    (after_reachable oneRound)
  refine ⟨qs, fun s => hsims s _ (oneRound_sims s), fun c => ?_⟩
  obtain ⟨l, hl, hone⟩ := oneRound_clients c
  exact ⟨l, hl, hone, hclients c l hl⟩

end SocketRounds

end LibIS
