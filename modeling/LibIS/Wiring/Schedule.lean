import LibIS.Wiring.Runs

set_option autoImplicit false

/-! # Wiring two groups of ranks: a schedule

A run in which acceptor 0 serves each connector at once, and the other acceptors send their names
and accept nothing. All connectors are taken through their code together, from one label to the next
(`sweep`), up to the end (`exists_connected`). -/

open ByteCodec Prog ThreadSystem

namespace LibIS

namespace Wiring

variable {X : Setup} {cfg cfg' : (system X).Config}

/-- The rank of acceptor 0. -/
abbrev Party.root (X : Setup) : Party X :=
  .acceptor ⟨0, X.one_le_N⟩

/-- Rank `p` has gone on to the label `l`, and nobody else has moved. -/
structure Turned (cfg cfg' : (system X).Config) (p : Party X) (l : (system X).Label p)
    (w : World) : Prop where
  reached : Reached X cfg'
  shared : cfg'.shared = w
  here : cfg'.control p = .ret l
  others : ∀ p', p' ≠ p → cfg'.control p' = cfg.control p'

theorem turn (h : Reached X cfg) {p : Party X} {l l' : (system X).Label p} {w : World}
    (hctl : cfg.control p = .ret l)
    (hruns : (system X).Runs p ((system X).code p l) cfg.shared l' w) :
    ∃ cfg', Turned cfg cfg' p l' w :=
  ⟨_, h.turn hctl hruns, rfl, Function.update_self .., fun _ hne => Function.update_of_ne hne ..⟩

/-- Acceptor 0 is in its loop. -/
def RootAccepting (X : Setup) (cfg : (system X).Config) : Prop :=
  ∃ hosts st, cfg.control (Party.root X) = .ret (.accepting hosts st)

/-- Acceptor 0 is in its loop with nothing queued, and the others wait. -/
structure Quiet (X : Setup) (cfg : (system X).Config) : Prop where
  reached : Reached X cfg
  root : RootAccepting X cfg
  waiting : ∀ c : Fin X.N, c.val ≠ 0 → cfg.control (.acceptor c) = .ret .waiting
  queue : cfg.shared.queued 0 = []

/-- Connector `s` has gone on to the label `l`. -/
structure Moved (X : Setup) (cfg cfg' : (system X).Config) (s : Fin X.M) (l : Connector.Label) :
    Prop where
  quiet : Quiet X cfg'
  here : cfg'.control (.connector s) = .ret l
  others : ∀ s', s' ≠ s → cfg'.control (.connector s') = cfg.control (.connector s')

theorem connector_ne {s s' : Fin X.M} (h : s' ≠ s) : Party.connector s' ≠ Party.connector s :=
  fun heq => h (Party.connector.inj heq)

theorem acceptor_ne_connector (c : Fin X.N) (s : Fin X.M) :
    Party.acceptor c ≠ Party.connector s :=
  fun h => nomatch h

theorem connector_post (h : Reached X cfg) {s : Fin X.M} {l : Connector.Label}
    (hctl : cfg.control (.connector s) = .ret l) : connectorPost X s l cfg.shared :=
  (holds_of_reachable h).post hctl

theorem acceptor_post (h : Reached X cfg) {c : Fin X.N} {l : Acceptor.Label}
    (hctl : cfg.control (.acceptor c) = .ret l) : acceptorPost X c l cfg.shared :=
  (holds_of_reachable h).post hctl

theorem Turned.rootAccepting {s : Fin X.M} {l : Connector.Label} {w : World}
    (hturned : Turned cfg cfg' (.connector s) l w) (h : RootAccepting X cfg) :
    RootAccepting X cfg' := by
  obtain ⟨hosts, st, hroot⟩ := h
  exact ⟨hosts, st, (hturned.others _ (acceptor_ne_connector _ s)).trans hroot⟩

/-- Nothing is queued by what a connector has done. -/
theorem Turned.moved {s : Fin X.M} {l : Connector.Label} {w : World}
    (hturned : Turned cfg cfg' (.connector s) l w) (h : Quiet X cfg) (hqueue : w.queued 0 = []) :
    Moved X cfg cfg' s l := by
  refine ⟨⟨hturned.reached, hturned.rootAccepting h.root, fun c hc => ?_, ?_⟩, hturned.here,
    fun s' hne => hturned.others _ (connector_ne hne)⟩
  · exact (hturned.others _ (acceptor_ne_connector c s)).trans (h.waiting c hc)
  · rw [hturned.shared]
    exact hqueue

/-- A connector runs the code of its label, and nothing is queued by it. -/
theorem Quiet.turn (h : Quiet X cfg) {s : Fin X.M} {l l' : Connector.Label} {w : World}
    (hctl : cfg.control (.connector s) = .ret l)
    (hruns : (system X).Runs (.connector s)
      (Connector.connect X.alloc s X.M (X.hostPortName 0) l) cfg.shared l' w)
    (hqueue : w.queued 0 = []) : ∃ cfg', Moved X cfg cfg' s l' := by
  obtain ⟨cfg', hturned⟩ := Wiring.turn h.reached hctl hruns
  exact ⟨cfg', hturned.moved h hqueue⟩

/-! ## One connector -/

section Connector

variable {s : Fin X.M}

theorem Quiet.start (h : Quiet X cfg) (hctl : cfg.control (.connector s) = .ret .start) :
    ∃ sock cfg', Moved X cfg cfg' s
      (.rootGroup (Connector.groups X.M) sock (X.hostname 0) (X.listenPort 0) []) := by
  have hcode : (system X).Runs (.connector s)
      (Connector.connect X.alloc s X.M (X.hostPortName 0) .start) cfg.shared
      (.rootGroup (Connector.groups X.M) (cfg.shared.conns.length : ℤ) (X.hostname 0)
        (X.listenPort 0) []) (cfg.shared.socket s) := by
    have hsock : ((cfg.shared.conns.length : ℤ) = -1) = False := by simp
    refine Runs.bind (runs_socket _) ?_
    simp only [hsock, if_false]
    exact Runs.bind (runs_resolve X.one_le_N _) (.ret _ _)
  exact ⟨(cfg.shared.conns.length : ℤ), h.turn hctl hcode h.queue⟩

/-- The world when connector `s` has entered a barrier. -/
def World.arrive (w : World) (s : ℕ) : World :=
  { w with arrived := Function.update w.arrived s (w.arrived s + 1) }

theorem runs_arrive (w : World) :
    (system X).Runs (.connector s) Connector.arrive w () (w.arrive s) :=
  Runs.op rfl

/-- A barrier is left that all have entered. -/
theorem runs_leave {w : World} (hall : Passed X (w.arrived s) w) :
    (system X).Runs (.connector s) Connector.leave w () w :=
  Runs.op ⟨hall, rfl⟩

/-- A connector of the group dials acceptor 0. -/
theorem Quiet.dialRoot (h : Quiet X cfg) {i : ℕ} {is : List ℕ} {sock : ℤ} {server : Bytes}
    {port : ℤ} {hosts : List StdString}
    (hctl : cfg.control (.connector s) = .ret (.rootGroup (i :: is) sock server port hosts))
    (hin : Connector.InGroup s i) :
    ∃ (k : ℕ) (w : World) (cfg' : (system X).Config),
      Turned cfg cfg' (.connector s) (.asking is k server port) w ∧ w.queued 0 = [k] ∧
        Greeted X w s k := by
  obtain ⟨j, his, -, hat⟩ := connector_post h.reached hctl
  obtain ⟨-, rfl, rfl⟩ := groups_next his
  obtain rfl : groupOf s = j := Connector.inGroup_iff.1 hin
  have hbefore : Unreached s sock cfg.shared := by
    rcases hat.state with ⟨-, hsock, -⟩ | ⟨hlt, -⟩
    · exact hsock
    · omega
  obtain ⟨k, conn, rfl, hk, hs, hnone⟩ := hbefore
  obtain ⟨hup, hdown⟩ := ((holds_of_reachable h.reached).inv.conn k conn hk).unreached hnone
  obtain ⟨w, hdial, hbacklog, hgreeted⟩ := runs_dialRoot hk hs hnone hup hdown
  have hcode : (system X).Runs (.connector s) (Connector.connect X.alloc s X.M (X.hostPortName 0)
      (.rootGroup (socketMaxSimultaneousConnections * groupOf s ::
        Connector.groupsFrom X.M (groupOf s + 1)) k server port hosts)) cfg.shared
      (.asking (Connector.groupsFrom X.M (groupOf s + 1)) k server port) w := by
    simp only [Connector.connect]
    rw [if_pos hin, hat.server, hat.port]
    exact Runs.bind hdial (.ret _ _)
  obtain ⟨cfg', hturned⟩ := Wiring.turn h.reached hctl hcode
  obtain ⟨hosts', st, hroot⟩ := h.root
  obtain ⟨peers, hroot⟩ := acceptor_post h.reached hroot
  refine ⟨k, w, cfg', hturned, ?_, hgreeted⟩
  rw [World.queued, hbacklog]
  exact Channel.pending_push_of_nil hroot.accepted.taken_le h.queue k

/-- Acceptor 0 serves the connector that is queued, which it has not served before. -/
theorem serve (h : Reached X cfg) (hroot : RootAccepting X cfg) {s k : ℕ}
    (hqueue : cfg.shared.queued 0 = [k]) (hgreeted : Greeted X cfg.shared s k) :
    ∃ (hosts : List Bytes) (st : Acceptor.Accepting) (w : World) (cfg' : (system X).Config),
      Turned cfg cfg' (Party.root X) (.accepting hosts st) w ∧ w.queued 0 = [] ∧
        ∃ conn : Conn, w.conns[k]? = some conn ∧ conn.down = ⟨X.answer 0, 0⟩ := by
  have hinv := (holds_of_reachable h).inv
  obtain ⟨hosts, st, hctl⟩ := hroot
  obtain ⟨peers, hat⟩ := acceptor_post h hctl
  obtain ⟨conn, hlinked, -⟩ := id hgreeted
  have hs : s < X.M := hlinked.source ▸ (hinv.conn k conn hlinked.get).source
  have hmore : st.nconnected ≠ st.nexpected.toInt := by
    intro hdone
    obtain ⟨hlen, -⟩ := hat.locals.all hdone
    obtain ⟨p, hp, hrank⟩ := List.mem_map.1 (hat.accepted.all hinv hlen hs)
    obtain ⟨conn', hlinked'⟩ := hat.accepted.link p hp
    have hsame : p.2 = k := hinv.unique p.2 k conn' conn 0 hlinked'.get hlinked.get
      (hlinked'.source.trans (hrank.trans hlinked.source.symm)) hlinked'.target hlinked.target
    refine hat.accepted.not_queued hinv (List.mem_map_of_mem hp) ?_
    rw [hsame]
    exact hqueue ▸ List.mem_singleton_self k
  obtain ⟨st', w, hround, hqueue', hanswered⟩ :=
    runs_rootRound (c := ⟨0, X.one_le_N⟩) rfl hqueue hgreeted hs st
  have hcode : (system X).Runs (Party.root X) (Acceptor.accept 0 X.N (X.hostPortName 0)
      (.accepting hosts st)) cfg.shared (.accepting hosts st') w := by
    rw [hat.locals.hosts rfl]
    simp only [Acceptor.accept, if_true]
    rw [if_pos hmore]
    exact Runs.bind hround (.ret _ _)
  obtain ⟨cfg', hturned⟩ := turn h hctl hcode
  exact ⟨hosts, st', w, cfg', hturned, hqueue', hanswered⟩

/-- In the first loop, a barrier is entered, after acceptor 0 has been dialled and has answered or
    not. -/
theorem Quiet.rootGroup (h : Quiet X cfg) (halloc : X.alloc = unlimited) {i : ℕ} {is : List ℕ}
    {sock : ℤ} {server : Bytes} {port : ℤ} {hosts : List StdString}
    (hctl : cfg.control (.connector s) = .ret (.rootGroup (i :: is) sock server port hosts)) :
    ∃ sock' hosts' cfg', Moved X cfg cfg' s (.rootBarrier is sock' server port hosts') := by
  by_cases hin : Connector.InGroup s i
  · obtain ⟨k, w₁, cfg₁, hturned₁, hqueue₁, hgreeted⟩ := h.dialRoot hctl hin
    have hroot₁ := hturned₁.rootAccepting h.root
    obtain rfl := hturned₁.shared
    obtain ⟨hosts', st, w₂, cfg₂, hturned₂, hqueue₂, conn, hk, hdown⟩ :=
      serve hturned₁.reached hroot₁ hqueue₁ hgreeted
    obtain rfl := hturned₂.shared
    have hquiet : Quiet X cfg₂ := by
      refine ⟨hturned₂.reached, ⟨hosts', st, hturned₂.here⟩, fun c hc => ?_, hqueue₂⟩
      have hne : Party.acceptor c ≠ Party.root X :=
        fun heq => hc (congrArg Fin.val (Party.acceptor.inj heq))
      exact (hturned₂.others _ hne).trans
        ((hturned₁.others _ (acceptor_ne_connector c s)).trans (h.waiting c hc))
    have hctl₂ : cfg₂.control (.connector s) = .ret (.asking is k server port) :=
      (hturned₂.others _ (acceptor_ne_connector _ s).symm).trans hturned₁.here
    obtain ⟨w₃, hrecv, hbacklog⟩ := runs_recvHosts (s := s) halloc hk hdown
    have hcode : (system X).Runs (.connector s) (Connector.connect X.alloc s X.M (X.hostPortName 0)
        (.asking is k server port)) cfg₂.shared (.rootBarrier is k server port X.others)
        (w₃.arrive s) := by
      simp only [Connector.connect]
      exact Runs.bind hrecv (Runs.bind (runs_arrive _) (.ret _ _))
    have hqueue₃ : (w₃.arrive s).queued 0 = [] := by
      show (w₃.backlog 0).pending = []
      rw [hbacklog]
      exact hqueue₂
    obtain ⟨cfg₃, hmoved⟩ := hquiet.turn hctl₂ hcode hqueue₃
    refine ⟨k, X.others, cfg₃, hmoved.quiet, hmoved.here, fun s' hne => ?_⟩
    rw [hmoved.others s' hne, hturned₂.others _ (acceptor_ne_connector _ s').symm,
      hturned₁.others _ (connector_ne hne)]
  · have hcode : (system X).Runs (.connector s) (Connector.connect X.alloc s X.M (X.hostPortName 0)
        (.rootGroup (i :: is) sock server port hosts)) cfg.shared
        (.rootBarrier is sock server port hosts) (cfg.shared.arrive s) := by
      simp only [Connector.connect]
      rw [if_neg hin]
      exact Runs.bind (runs_arrive _) (.ret _ _)
    exact ⟨sock, hosts, h.turn hctl hcode h.queue⟩

/-- In the second loop, a barrier is entered, after the hosts have been dialled or not. -/
theorem Quiet.group (h : Quiet X cfg) {i : ℕ} {is : List ℕ} {sockets : List ℤ}
    {hosts : List StdString}
    (hctl : cfg.control (.connector s) = .ret (.group (i :: is) sockets hosts)) :
    ∃ sockets' cfg', Moved X cfg cfg' s (.barrier is sockets' hosts) := by
  obtain ⟨j, -, hat⟩ := connector_post h.reached hctl
  have hN := X.one_le_N
  by_cases hin : Connector.InGroup s i
  · obtain ⟨sockets', w, hdial, hbacklog⟩ := runs_dialAll (X := X) (s := s) (X.N - 1) 1 (le_refl 1)
      (by omega) sockets cfg.shared
    have hcode : (system X).Runs (.connector s) (Connector.connect X.alloc s X.M (X.hostPortName 0)
        (.group (i :: is) sockets hosts)) cfg.shared (.barrier is sockets' hosts)
        (w.arrive s) := by
      rw [hat.remoteHosts]
      simp only [Connector.connect, hin, if_true]
      exact Runs.bind hdial (Runs.bind (runs_arrive _) (.ret _ _))
    refine ⟨sockets', h.turn hctl hcode ?_⟩
    show (w.backlog 0).pending = []
    rw [hbacklog]
    exact h.queue
  · have hcode : (system X).Runs (.connector s) (Connector.connect X.alloc s X.M (X.hostPortName 0)
        (.group (i :: is) sockets hosts)) cfg.shared (.barrier is sockets hosts)
        (cfg.shared.arrive s) := by
      simp only [Connector.connect, hin, if_false]
      exact Runs.bind (.ret _ _) (Runs.bind (runs_arrive _) (.ret _ _))
    exact ⟨sockets, h.turn hctl hcode h.queue⟩

end Connector

/-! ## All connectors -/

/-- Where a connector is, up to its locals: in the loops, `j` groups are done. -/
inductive Phase where
  | start
  | rootGroup (j : ℕ)
  | rootBarrier (j : ℕ)
  | group (j : ℕ)
  | barrier (j : ℕ)

/-- The labels of a phase. -/
inductive Phase.At (M : ℕ) : Phase → Connector.Label → Prop
  | start : At M .start .start
  | rootGroup (j : ℕ) (sock : ℤ) (server : Bytes) (port : ℤ) (hosts : List StdString) :
      At M (.rootGroup j) (.rootGroup (Connector.groupsFrom M j) sock server port hosts)
  | rootBarrier (j : ℕ) (sock : ℤ) (server : Bytes) (port : ℤ) (hosts : List StdString) :
      At M (.rootBarrier j) (.rootBarrier (Connector.groupsFrom M j) sock server port hosts)
  | group (j : ℕ) (sockets : List ℤ) (hosts : List StdString) :
      At M (.group j) (.group (Connector.groupsFrom M j) sockets hosts)
  | barrier (j : ℕ) (sockets : List ℤ) (hosts : List StdString) :
      At M (.barrier j) (.barrier (Connector.groupsFrom M j) sockets hosts)

/-- All connectors are at labels with `p`. -/
def AllAt (X : Setup) (p : Connector.Label → Prop) (cfg : (system X).Config) : Prop :=
  ∀ s : Fin X.M, ∃ l, cfg.control (.connector s) = .ret l ∧ p l

/-- A connector at a label with `p` can go on to one with `q`, when all others are at one or the
    other. -/
def Advances (X : Setup) (p q : Connector.Label → Prop) : Prop :=
  ∀ (cfg : (system X).Config) (s : Fin X.M) (l : Connector.Label), Quiet X cfg →
    AllAt X (fun l => p l ∨ q l) cfg → cfg.control (.connector s) = .ret l → p l →
      ∃ l' cfg', Moved X cfg cfg' s l' ∧ q l'

/-- The connectors go on one after the other. -/
theorem sweep {p q : Connector.Label → Prop} (hstep : Advances X p q) (h : Quiet X cfg)
    (hall : AllAt X p cfg) : ∃ cfg', Quiet X cfg' ∧ AllAt X q cfg' := by
  have hsome : ∀ n, n ≤ X.M → ∃ cfg', Quiet X cfg' ∧ ∀ s : Fin X.M,
      ∃ l, cfg'.control (.connector s) = .ret l ∧ (if s.val < n then q l else p l) := by
    intro n
    induction n with
    | zero => exact fun _ => ⟨cfg, h, hall⟩
    | succ n ih =>
        intro hn
        obtain ⟨cfg₁, hquiet, hat⟩ := ih (by omega)
        have hmixed : AllAt X (fun l => p l ∨ q l) cfg₁ := by
          intro s
          obtain ⟨l, hctl, hl⟩ := hat s
          split at hl
          · exact ⟨l, hctl, .inr hl⟩
          · exact ⟨l, hctl, .inl hl⟩
        obtain ⟨l, hctl, hl⟩ := hat ⟨n, hn⟩
        rw [if_neg (lt_irrefl n)] at hl
        obtain ⟨l', cfg₂, hmoved, hl'⟩ := hstep cfg₁ ⟨n, hn⟩ l hquiet hmixed hctl hl
        refine ⟨cfg₂, hmoved.quiet, fun s => ?_⟩
        by_cases hs : s = ⟨n, hn⟩
        · subst hs
          exact ⟨l', hmoved.here, by rwa [if_pos (Nat.lt_succ_self n)]⟩
        · have hne : s.val ≠ n := fun heq => hs (Fin.ext heq)
          obtain ⟨l, hctl, hl⟩ := hat s
          refine ⟨l, (hmoved.others s hs).trans hctl, ?_⟩
          have hiff : s.val < n + 1 ↔ s.val < n := by omega
          rwa [if_congr hiff rfl rfl]
  obtain ⟨cfg', hquiet, hat⟩ := hsome X.M (le_refl _)
  refine ⟨cfg', hquiet, fun s => ?_⟩
  obtain ⟨l, hctl, hl⟩ := hat s
  rw [if_pos s.isLt] at hl
  exact ⟨l, hctl, hl⟩

theorem groupsFrom_inj {M j j' : ℕ} (hj : j ≤ Connector.numGroups M)
    (hj' : j' ≤ Connector.numGroups M)
    (h : Connector.groupsFrom M j = Connector.groupsFrom M j') : j = j' := by
  have hlen := congrArg List.length h
  rw [Connector.groupsFrom, Connector.groupsFrom, List.length_range', List.length_range'] at hlen
  omega

/-- All connectors around one barrier have entered as many as it takes to leave it. -/
theorem passed_of_allAt {p : Connector.Label → Prop} {n : ℕ} (h : Reached X cfg)
    (hall : AllAt X p cfg)
    (harrived : ∀ (s : Fin X.M) (l : Connector.Label), p l → connectorPost X s l cfg.shared →
      cfg.shared.arrived s = n) (s : Fin X.M) : Passed X (cfg.shared.arrived s) cfg.shared := by
  have hn : ∀ s : Fin X.M, cfg.shared.arrived s = n := by
    intro s
    obtain ⟨l, hctl, hl⟩ := hall s
    exact harrived s l hl (connector_post h hctl)
  intro s' hs'
  rw [hn s]
  exact (hn ⟨s', hs'⟩).ge

section Phases

variable {j : ℕ}

theorem advances_start : Advances X (Phase.start.At X.M) ((Phase.rootGroup 0).At X.M) := by
  rintro cfg s - h - hctl ⟨⟩
  obtain ⟨sock, cfg', hmoved⟩ := h.start hctl
  exact ⟨_, cfg', hmoved, .rootGroup 0 _ _ _ _⟩

theorem advances_rootGroup (halloc : X.alloc = unlimited) (hj : j < Connector.numGroups X.M) :
    Advances X ((Phase.rootGroup j).At X.M) ((Phase.rootBarrier (j + 1)).At X.M) := by
  rintro cfg s - h - hctl ⟨⟩
  rw [Connector.groupsFrom_of_lt hj] at hctl
  obtain ⟨sock, hosts, cfg', hmoved⟩ := h.rootGroup halloc hctl
  exact ⟨_, cfg', hmoved, .rootBarrier (j + 1) _ _ _ _⟩

theorem advances_rootBarrier (hj : j ≤ Connector.numGroups X.M) :
    Advances X ((Phase.rootBarrier j).At X.M) ((Phase.rootGroup j).At X.M) := by
  rintro cfg s l h hall hctl ⟨⟩
  have hpassed : Passed X (cfg.shared.arrived s) cfg.shared := by
    refine passed_of_allAt (n := j) h.reached hall ?_ s
    rintro s' l' (⟨⟨⟩⟩ | ⟨⟨⟩⟩) hpost
    · obtain ⟨j', his, hat⟩ := hpost
      rw [hat.arrived, groupsFrom_inj hat.le hj his.symm]
    · obtain ⟨j', his, -, hat⟩ := hpost
      rw [hat.arrived, groupsFrom_inj hat.le hj his.symm]
  obtain ⟨cfg', hmoved⟩ := h.turn hctl (Runs.bind (runs_leave hpassed) (.ret _ _)) h.queue
  exact ⟨_, cfg', hmoved, .rootGroup j _ _ _ _⟩

theorem advances_between :
    Advances X ((Phase.rootGroup (Connector.numGroups X.M)).At X.M) ((Phase.group 0).At X.M) := by
  rintro cfg s - h - hctl ⟨⟩
  rw [Connector.groupsFrom_of_le (le_refl _)] at hctl
  obtain ⟨cfg', hmoved⟩ := h.turn hctl (.ret _ _) h.queue
  exact ⟨_, cfg', hmoved, .group 0 _ _⟩

theorem advances_group (hj : j < Connector.numGroups X.M) :
    Advances X ((Phase.group j).At X.M) ((Phase.barrier (j + 1)).At X.M) := by
  rintro cfg s - h - hctl ⟨⟩
  rw [Connector.groupsFrom_of_lt hj] at hctl
  obtain ⟨sockets, cfg', hmoved⟩ := h.group hctl
  exact ⟨_, cfg', hmoved, .barrier (j + 1) _ _⟩

theorem advances_barrier (hj : j ≤ Connector.numGroups X.M) :
    Advances X ((Phase.barrier j).At X.M) ((Phase.group j).At X.M) := by
  rintro cfg s l h hall hctl ⟨⟩
  have hpassed : Passed X (cfg.shared.arrived s) cfg.shared := by
    refine passed_of_allAt (n := Connector.numGroups X.M + j) h.reached hall ?_ s
    rintro s' l' (⟨⟨⟩⟩ | ⟨⟨⟩⟩) ⟨j', his, hat⟩
    · rw [hat.arrived, groupsFrom_inj hat.le hj his.symm]
    · rw [hat.arrived, groupsFrom_inj hat.le hj his.symm]
  obtain ⟨cfg', hmoved⟩ := h.turn hctl (Runs.bind (runs_leave hpassed) (.ret _ _)) h.queue
  exact ⟨_, cfg', hmoved, .group j _ _⟩

theorem advances_end : Advances X ((Phase.group (Connector.numGroups X.M)).At X.M)
    (fun l => ∃ sockets, l = .connected sockets) := by
  rintro cfg s - h - hctl ⟨⟩
  rw [Connector.groupsFrom_of_le (le_refl _)] at hctl
  obtain ⟨cfg', hmoved⟩ := h.turn hctl (.ret _ _) h.queue
  exact ⟨_, cfg', hmoved, _, rfl⟩

/-- All groups of the first loop are gone through. -/
theorem Quiet.rootGroups (h : Quiet X cfg) (halloc : X.alloc = unlimited)
    (hall : AllAt X (Phase.start.At X.M) cfg) (j : ℕ) (hj : j ≤ Connector.numGroups X.M) :
    ∃ cfg', Quiet X cfg' ∧ AllAt X ((Phase.rootGroup j).At X.M) cfg' := by
  induction j with
  | zero => exact sweep advances_start h hall
  | succ j ih =>
      obtain ⟨cfg₁, hquiet₁, hall₁⟩ := ih (by omega)
      obtain ⟨cfg₂, hquiet₂, hall₂⟩ := sweep (advances_rootGroup halloc hj) hquiet₁ hall₁
      exact sweep (advances_rootBarrier hj) hquiet₂ hall₂

/-- All groups of the second loop are gone through. -/
theorem Quiet.groups (h : Quiet X cfg) (hall : AllAt X ((Phase.group 0).At X.M) cfg) (j : ℕ)
    (hj : j ≤ Connector.numGroups X.M) :
    ∃ cfg', Quiet X cfg' ∧ AllAt X ((Phase.group j).At X.M) cfg' := by
  induction j with
  | zero => exact ⟨cfg, h, hall⟩
  | succ j ih =>
      obtain ⟨cfg₁, hquiet₁, hall₁⟩ := ih (by omega)
      obtain ⟨cfg₂, hquiet₂, hall₂⟩ := sweep (advances_group hj) hquiet₁ hall₁
      exact sweep (advances_barrier hj) hquiet₂ hall₂

/-- All connectors can go on from the start to the end. -/
theorem Quiet.connected (h : Quiet X cfg) (halloc : X.alloc = unlimited)
    (hall : AllAt X (Phase.start.At X.M) cfg) :
    ∃ cfg', Quiet X cfg' ∧ AllAt X (fun l => ∃ sockets, l = .connected sockets) cfg' := by
  obtain ⟨cfg₁, hquiet₁, hall₁⟩ := h.rootGroups halloc hall _ (le_refl _)
  obtain ⟨cfg₂, hquiet₂, hall₂⟩ := sweep advances_between hquiet₁ hall₁
  obtain ⟨cfg₃, hquiet₃, hall₃⟩ := hquiet₂.groups hall₂ _ (le_refl _)
  exact sweep advances_end hquiet₃ hall₃

end Phases

/-! ## The start of the acceptors -/

/-- The acceptors below `n`, but 0, have sent their names, and nobody else has moved. -/
structure Named (X : Setup) (n : ℕ) (cfg : (system X).Config) : Prop where
  reached : Reached X cfg
  connectors : AllAt X (Phase.start.At X.M) cfg
  root : cfg.control (Party.root X) = .ret .start
  waiting : ∀ c : Fin X.N, c.val ≠ 0 → c.val < n → cfg.control (.acceptor c) = .ret .waiting
  starting : ∀ c : Fin X.N, n ≤ c.val → cfg.control (.acceptor c) = .ret .start
  queue : cfg.shared.queued 0 = []

theorem exists_named (X : Setup) (n : ℕ) (hn : n ≤ X.N) : ∃ cfg, Named X n cfg := by
  induction n with
  | zero =>
      exact ⟨_, .start, fun s => ⟨.start, rfl, .start⟩, rfl, fun _ _ h => absurd h (Nat.not_lt_zero _),
        fun _ _ => rfl, rfl⟩
  | succ n ih =>
      obtain ⟨cfg, h⟩ := ih (by omega)
      by_cases hzero : n = 0
      · refine ⟨cfg, h.reached, h.connectors, h.root, fun c hc hlt => ?_, fun c hle => ?_, h.queue⟩
        · omega
        · exact h.starting c (by omega)
      · have hctl := h.starting ⟨n, hn⟩ (le_refl n)
        obtain ⟨w, hruns, hbacklog⟩ := runs_sendName (X := X) (c := ⟨n, hn⟩) hzero cfg.shared
        obtain ⟨cfg', hturned⟩ := turn h.reached hctl hruns
        have hother : ∀ c : Fin X.N, c.val ≠ n →
            cfg'.control (.acceptor c) = cfg.control (.acceptor c) := fun c hc =>
          hturned.others _ (fun heq => hc (congrArg Fin.val (Party.acceptor.inj heq)))
        refine ⟨cfg', hturned.reached, fun s => ?_, ?_, fun c hc hlt => ?_, fun c hle => ?_, ?_⟩
        · obtain ⟨l, hl, hat⟩ := h.connectors s
          exact ⟨l, (hturned.others _ (acceptor_ne_connector _ s).symm).trans hl, hat⟩
        · exact (hother ⟨0, X.one_le_N⟩ (Ne.symm hzero)).trans h.root
        · by_cases hcn : c.val = n
          · obtain rfl : c = ⟨n, hn⟩ := Fin.ext hcn
            exact hturned.here
          · exact (hother c hcn).trans (h.waiting c hc (by omega))
        · exact (hother c (by omega)).trans (h.starting c (by omega))
        · rw [hturned.shared, World.queued, hbacklog]
          exact h.queue

/-- Acceptor 0 can be brought into its loop before any connector starts. -/
theorem exists_quiet (X : Setup) :
    ∃ cfg, Quiet X cfg ∧ AllAt X (Phase.start.At X.M) cfg := by
  obtain ⟨cfg, h⟩ := exists_named X X.N (le_refl _)
  obtain ⟨-, hroot, -⟩ := acceptor_post h.reached h.root
  have hmail : ∀ i, 1 ≤ i → i < X.N → cfg.shared.mail i = ⟨X.letter i, 0⟩ := by
    intro i hi hlt
    have hwait := h.waiting ⟨i, hlt⟩ (show i ≠ 0 by omega) hlt
    obtain ⟨-, -, -, hsent⟩ := acceptor_post h.reached hwait
    have htaken := (hroot rfl).2 i
    rw [← hsent, ← htaken]
  obtain ⟨w, hruns, hbacklog⟩ := runs_start (c := ⟨0, X.one_le_N⟩) rfl hmail
  obtain ⟨cfg', hturned⟩ := turn h.reached h.root hruns
  refine ⟨cfg', ⟨hturned.reached, ⟨_, _, hturned.here⟩, fun c hc => ?_, ?_⟩, fun s => ?_⟩
  · have hne : Party.acceptor c ≠ Party.root X :=
      fun heq => hc (congrArg Fin.val (Party.acceptor.inj heq))
    exact (hturned.others _ hne).trans (h.waiting c hc c.isLt)
  · rw [hturned.shared, World.queued, hbacklog]
    exact h.queue
  · obtain ⟨l, hl, hat⟩ := h.connectors s
    exact ⟨l, (hturned.others _ (acceptor_ne_connector _ s).symm).trans hl, hat⟩

/-- There is a run in which all connectors return while the acceptors other than 0 have accepted
    nothing. -/
theorem exists_connected (X : Setup) (halloc : X.alloc = unlimited) :
    ∃ cfg, Quiet X cfg ∧ AllAt X (fun l => ∃ sockets, l = .connected sockets) cfg := by
  obtain ⟨cfg, hquiet, hall⟩ := exists_quiet X
  exact hquiet.connected halloc hall

/-! ## A setup -/

/-- The name of an acceptor on the host `h`. -/
def nameOnHost (port : ℕ) : StdString :=
  match listenName [104] port with
  | .ok name => name
  | .error _ => default

theorem listenName_onHost {port : ℕ} (h : port ≤ 65535) :
    listenName [104] port = .ok (nameOnHost port) := by
  have hdigits : (toDecimal port).length ≤ 5 := toDecimal_length (by norm_num) (by omega)
  have hsize : (104 :: 58 :: toDecimal port : Bytes).length < 2 ^ 62 := by
    rw [List.length_cons, List.length_cons]
    omega
  have hname : listenName [104] port = .ok ⟨_, hsize⟩ := by
    exact dif_pos hsize
  rw [nameOnHost, hname]

/-- `M` connectors, and `N` acceptors on the host `h` with the ports from 1 on. -/
def Setup.onHost (M N : ℕ) (hM : 1 ≤ M ∧ M < 2 ^ 31) (hN : 1 ≤ N ∧ N ≤ 65535) : Setup where
  M := M
  N := N
  alloc := unlimited
  hostname _ := [104]
  listenPort c := c + 1
  hostPortName c := nameOnHost (c + 1)
  one_le_M := hM.1
  M_lt := hM.2
  one_le_N := hN.1
  N_lt := by omega
  hostname_length _ _ := by decide
  no_colon _ _ := by decide
  no_zero _ _ := by decide
  one_le_port c _ := Nat.le_add_left 1 c
  port_le c hc := by omega
  listen c hc := listenName_onHost (by omega)
  distinct := by
    intro c c' hc hc' hsame
    have hparse := parseHost_listen (listenName_onHost (show c + 1 ≤ 65535 by omega)) (by decide)
      (by omega)
    have hparse' := parseHost_listen (listenName_onHost (show c' + 1 ≤ 65535 by omega)) (by decide)
      (by omega)
    rw [hsame, hparse'] at hparse
    have hport := congrArg Prod.snd (Except.ok.inj hparse)
    simp only [Nat.cast_inj] at hport
    omega

end Wiring

end LibIS
