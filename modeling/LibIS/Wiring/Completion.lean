import LibIS.Wiring.Costs
import LibIS.Wiring.Sockets
import Mathlib.Data.Fintype.Lattice

set_option autoImplicit false

/-! # Wiring two groups of ranks: every run comes to its end

Where no socket, no lookup and no connect fails, all ranks return, however they are interleaved. No
rank runs for ever: a label is worth more than its code costs. And no ranks wait for each other:
where nobody can step, the connectors have announced themselves, so that nobody waits for them; then
acceptor 0 has answered all, so that they have come to a barrier; of those in a barrier the least
advanced may leave it; and when they have left the last one, the acceptors find all connections. -/

open ByteCodec Prog ThreadSystem Proof

namespace LibIS

namespace Wiring

variable {X : Setup}

/-! ## Runs in which nothing fails -/

/-- The ranks that have returned. -/
def Final (X : Setup) : (p : Party X) → (system X).Label p → Prop
  | .connector _ => fun l => ∃ sockets, l = Connector.Label.connected sockets
  | .acceptor _ => fun l => ∃ sockets, l = Acceptor.Label.accepted sockets

/-- The ranks and their programs where nothing fails. -/
abbrev succeeding (X : Setup) : ThreadSystem (Party X) World :=
  (system X).guarded (Succeeds X)

def succeedingStart (X : Setup) : (succeeding X).Config :=
  (succeeding X).start World.init (startLabels X)

variable {cfg : (succeeding X).Config}

/-- A configuration of a run in which nothing fails, and memory suffices. -/
structure Succeeding (X : Setup) (cfg : (succeeding X).Config) : Prop where
  alloc : X.alloc = unlimited
  reached : (succeeding X).Advances (Final X) (succeedingStart X) cfg

namespace Succeeding

theorem holds (h : Succeeding X cfg) : (outline X).Holds (unguard cfg) :=
  Proof.sound (outline_valid X) (reachable_unguard h.reached.reachable)

theorem waits (h : Succeeding X cfg) (p : Party X) :
    (waiting X).wp p (cfg.control p) (settled X p) cfg.shared := by
  refine Proof.more_sound (outline_valid X) ?_ ?_ ?_ h.reached p
  · rintro (s | c)
    · exact trivial
    · exact trivial
  · rintro (s | c) l w w' hsettled hrely -
    · have hrely' : ConnectorRely s w w' := hrely
      cases l with
      | start => exact trivial
      | connected sockets => exact ⟨hsettled.1.mono hrely', hrely'.arrived.trans hsettled.2⟩
      | _ => exact Told.mono hsettled hrely'
    · have hrely' : AcceptorRely c w w' := hrely
      cases l with
      | start => exact trivial
      | waiting => exact trivial
      | _ => exact Answering.mono hsettled hrely'
  · rintro (s | c) l -
    · exact connect_waits h.alloc l
    · exact accept_waits l

theorem settled_at (h : Succeeding X cfg) {p : Party X} {l : (system X).Label p}
    (hctl : cfg.control p = .ret l) : settled X p l cfg.shared := by
  have hwp := h.waits p
  rw [hctl] at hwp
  exact (wp_ret _).1 hwp

theorem due_at (h : Succeeding X cfg) {p : Party X} {o : (system X).Op p}
    {k : (system X).Resp p o → Prog ((system X).Resp p) ((system X).Label p)}
    (hctl : cfg.control p = .vis o k) : due X p o cfg.shared ∧ ready X p o cfg.shared := by
  have hwp := h.waits p
  rw [hctl] at hwp
  exact ⟨ready_of_wp h.holds.inv hwp, h.holds.ready hctl⟩

end Succeeding

/-! ## Where nobody can step -/

/-- No rank can step. -/
structure Stuck (X : Setup) (cfg : (succeeding X).Config) : Prop extends Succeeding X cfg where
  stuck : ∀ cfg', ¬ (succeeding X).Advance (Final X) cfg cfg'

namespace Stuck

variable {w : World}

theorem inv (h : Stuck X cfg) : Inv X cfg.shared :=
  h.holds.inv

/-- A connector has returned, or waits for bytes or in a barrier, and has announced itself. -/
theorem connector (h : Stuck X cfg) (s : Fin X.M) : ToldAll X s cfg.shared ∧
    ((∃ sockets, cfg.control (.connector s) = .ret (.connected sockets)) ∨
      (∃ k, cfg.control (.connector s) = .vis .leave k) ∨
        ∃ fd size k, cfg.control (.connector s) = .vis (.recv fd size) k) := by
  rcases blocked_of_stuck h.stuck (.connector s) with ⟨l, hctl, sockets, rfl⟩ | ⟨o, k, hctl, hno⟩
  · have hsettled := h.settled_at hctl
    exact ⟨hsettled.1, .inl ⟨sockets, hctl⟩⟩
  · obtain ⟨hdue, hready⟩ := h.due_at hctl
    cases o with
    | socket =>
        refine absurd ⟨.inr ⟨rfl, rfl⟩, ?_⟩ (hno _ _)
        show (cfg.shared.conns.length : ℤ) ≠ -1
        omega
    | lookup servername =>
        exact absurd ⟨⟨.inr rfl, rfl⟩, Option.some_ne_none servername⟩ (hno _ _)
    | connect fd server port =>
        obtain ⟨⟨k, conn, hfd, hget, -, hnone⟩, c, hc, hhost, hport⟩ := hdue
        exact absurd ⟨.inr ⟨k, c, conn, hfd, hget, hnone, hc, hhost, hport, rfl, rfl⟩, rfl⟩
          (hno _ _)
    | send fd data =>
        obtain ⟨k, c, conn, hfd, -⟩ := hready
        exact absurd ⟨⟨k, hfd, rfl⟩, trivial⟩ (hno () _)
    | recv fd size => exact ⟨hdue.1, .inr (.inr ⟨fd, size, k, hctl⟩)⟩
    | arrive => exact absurd ⟨rfl, trivial⟩ (hno () _)
    | leave => exact ⟨hdue.1, .inr (.inl ⟨k, hctl⟩)⟩
    | throw e => exact absurd hdue id

/-- An acceptor other than 0 has sent its name. -/
theorem posted (h : Stuck X cfg) (c : Fin X.N) (hc : c.val ≠ 0) :
    (cfg.shared.mail c).sent = X.letter c := by
  rcases blocked_of_stuck h.stuck (.acceptor c) with ⟨l, hctl, sockets, rfl⟩ | ⟨o, k, hctl, hno⟩
  · have hsettled : AnsweredAll X c cfg.shared := h.settled_at hctl
    exact hsettled.posted hc
  · obtain ⟨hdue, hready⟩ := h.due_at hctl
    cases o with
    | mpiRecv size source => exact absurd hready hc
    | mpiSend data dest => exact absurd ⟨⟨hdue, rfl⟩, trivial⟩ (hno () _)
    | bcast buf => exact (hdue hc).2
    | accept => exact hdue.1.posted hc
    | recv fd size => exact hdue.1 hc
    | send fd data =>
        obtain ⟨k, s, conn, hfd, -⟩ := hready
        exact absurd ⟨⟨k, hfd, rfl⟩, trivial⟩ (hno () _)
    | throw e => exact absurd hdue id
    | overrun => exact absurd hdue id

/-- An acceptor has returned, or waits for a connection, or to be told how many connectors there
    are. What is announced on a connection has arrived, and so have the names. -/
theorem acceptor (h : Stuck X cfg) (c : Fin X.N) :
    (∃ sockets, cfg.control (.acceptor c) = .ret (.accepted sockets)) ∨
      (∃ k, cfg.control (.acceptor c) = .vis .accept k) ∨
        c.val ≠ 0 ∧ ∃ buf k, cfg.control (.acceptor c) = .vis (.bcast buf) k := by
  rcases blocked_of_stuck h.stuck (.acceptor c) with ⟨l, hctl, sockets, rfl⟩ | ⟨o, k, hctl, hno⟩
  · exact .inl ⟨sockets, hctl⟩
  · obtain ⟨hdue, hready⟩ := h.due_at hctl
    cases o with
    | mpiRecv size i =>
        obtain ⟨hzero, hi, m, hm, hsize⟩ := hdue
        have hnext : (cfg.shared.mail i).next? = some m := by
          rw [Channel.next?, h.posted ⟨i, hi⟩ hzero]
          exact hm
        exact absurd ⟨⟨hnext, hsize, rfl⟩, trivial⟩ (hno m _)
    | mpiSend data dest => exact absurd ⟨⟨hdue, rfl⟩, trivial⟩ (hno () _)
    | bcast buf =>
        by_cases hc : c.val = 0
        · refine absurd ⟨?_, trivial⟩
            (hno buf { cfg.shared with cast := cfg.shared.cast ++ [buf] })
          show if c.val = 0 then _ else _
          rw [if_pos hc]
          exact ⟨rfl, rfl⟩
        · exact .inr (.inr ⟨hc, buf, k, hctl⟩)
    | accept => exact .inr (.inl ⟨k, hctl⟩)
    | recv fd size =>
        obtain ⟨-, s, k, conn, hfd, hlinked, hsize⟩ := hdue
        have hs : s < X.M := hlinked.source ▸ (h.inv.conn k conn hlinked.get).source
        have hsent : conn.up.sent = X.hello s c := (h.connector ⟨s, hs⟩).1 c k conn trivial hlinked
        have hpending : size ≤ conn.up.pending.length := by
          rw [Channel.pending, List.length_drop, hsent]
          omega
        exact absurd ⟨⟨k, conn, hfd, hlinked.get, hpending, rfl, rfl⟩, trivial⟩ (hno _ _)
    | send fd data =>
        obtain ⟨k, s, conn, hfd, -⟩ := hready
        exact absurd ⟨⟨k, hfd, rfl⟩, trivial⟩ (hno () _)
    | throw e => exact absurd hdue id
    | overrun => exact absurd hdue id

/-- An acceptor that waits for a connection has taken all that have been made, and not as many as
    there are connectors. -/
theorem accept_blocked (h : Stuck X cfg) {c : Fin X.N}
    {k : ℤ → AcceptProg Acceptor.Label} (hctl : cfg.control (.acceptor c) = .vis .accept k) :
    AnsweredAll X c cfg.shared ∧
      (cfg.shared.backlog c).sent.length ≤ (cfg.shared.backlog c).taken ∧
        (cfg.shared.backlog c).taken < X.M := by
  obtain ⟨⟨hall, hlt⟩, -⟩ := h.due_at hctl
  refine ⟨hall, ?_, hlt⟩
  rcases blocked_of_stuck h.stuck (.acceptor c) with ⟨l, hctl', -⟩ | ⟨o, k', hctl', hno⟩
  · exact absurd (hctl.symm.trans hctl') (by simp)
  · obtain ⟨rfl, -⟩ := Prog.vis.inj (hctl.symm.trans hctl')
    by_contra hle
    have hnext : (cfg.shared.backlog c).next? = some _ := List.getElem?_eq_getElem (not_le.1 hle)
    exact absurd ⟨⟨_, hnext, rfl, rfl⟩, trivial⟩ (hno _ _)

end Stuck

/-! ## How many connections there are -/

/-- The connectors that have made connections. -/
def sources (w : World) (ks : List ℕ) : List ℕ :=
  ks.map (fun k => (w.conns[k]?.map Conn.source).getD 0)

theorem mem_sources {w : World} {s c k : ℕ} {conn : Conn} {ks : List ℕ} (hlinked : Linked w s c k conn)
    (hk : k ∈ ks) : s ∈ sources w ks := by
  refine List.mem_map.2 ⟨k, hk, ?_⟩
  rw [hlinked.get]
  exact hlinked.source

/-- No connector is queued twice at an acceptor. -/
theorem Inv.sent_length_le {w : World} (h : Inv X w) (c : ℕ) :
    (w.backlog c).sent.length ≤ X.M := by
  have hsource : ∀ k, k ∈ (w.backlog c).sent → ∃ conn : Conn, w.conns[k]? = some conn ∧
      conn.target = some c ∧ (w.conns[k]?.map Conn.source).getD 0 = conn.source := by
    intro k hk
    obtain ⟨conn, hget, htarget⟩ := h.queue c k hk
    exact ⟨conn, hget, htarget, by rw [hget]; rfl⟩
  have hnodup : (sources w (w.backlog c).sent).Nodup := by
    refine (h.nodup c).map_on (fun k hk k' hk' hsame => ?_)
    obtain ⟨conn, hget, htarget, hs⟩ := hsource k hk
    obtain ⟨conn', hget', htarget', hs'⟩ := hsource k' hk'
    exact h.unique k k' conn conn' c hget hget' (hs.symm.trans (hsame.trans hs')) htarget htarget'
  have hsub : sources w (w.backlog c).sent ⊆ List.range X.M := by
    intro s hs
    obtain ⟨k, hk, rfl⟩ := List.mem_map.1 hs
    obtain ⟨conn, hget, -, hs⟩ := hsource k hk
    rw [hs]
    exact List.mem_range.2 (h.conn k conn hget).source
  have hle := (List.subperm_of_subset hnodup hsub).length_le
  rwa [sources, List.length_map, List.length_range] at hle

/-- When all connectors have dialled an acceptor, as many connections have been queued there. -/
theorem Inv.le_sent_length {w : World} (h : Inv X w) {c : ℕ}
    (hdialled : ∀ s, s < X.M → ∃ (k : ℕ) (conn : Conn), Linked w s c k conn) :
    X.M ≤ (w.backlog c).sent.length := by
  have hsub : List.range X.M ⊆ sources w (w.backlog c).sent := by
    intro s hs
    obtain ⟨k, conn, hlinked⟩ := hdialled s (List.mem_range.1 hs)
    exact mem_sources hlinked (h.made k conn c hlinked.get hlinked.target)
  have hle := (List.subperm_of_subset List.nodup_range hsub).length_le
  rwa [sources, List.length_map, List.length_range] at hle

namespace Stuck

/-! ## Nobody waits -/

/-- Acceptor 0 has answered all connections. -/
theorem root (h : Stuck X cfg) {s k : ℕ} {conn : Conn} (hlinked : Linked cfg.shared s 0 k conn) :
    conn.down.sent = X.answer 0 := by
  have hsent := h.inv.made k conn 0 hlinked.get hlinked.target
  obtain ⟨hall, hle⟩ : AnsweredAll X 0 cfg.shared ∧
      (cfg.shared.backlog 0).sent.length ≤ (cfg.shared.backlog 0).taken := by
    rcases h.acceptor ⟨0, X.one_le_N⟩ with ⟨sockets, hctl⟩ | ⟨k, hctl⟩ | ⟨hzero, -⟩
    · have hsettled : AnsweredAll X 0 cfg.shared := h.settled_at hctl
      have hfilled : Filled X 0 sockets cfg.shared := h.holds.post hctl
      exact ⟨hsettled, by rw [hfilled.taken]; exact h.inv.sent_length_le 0⟩
    · obtain ⟨hall, hle, -⟩ := h.accept_blocked hctl
      exact ⟨hall, hle⟩
    · exact absurd rfl hzero
  obtain ⟨s', conn', hlinked', hdown⟩ := hall.answered k
    (by rw [List.take_of_length_le hle]; exact hsent) trivial
  have hsame : conn' = conn := Option.some.inj (hlinked'.get.symm.trans hlinked.get)
  rw [← hsame, hdown]

/-- No connector waits for bytes. -/
theorem returned_or_leaving (h : Stuck X cfg) (s : Fin X.M) :
    (∃ sockets, cfg.control (.connector s) = .ret (.connected sockets)) ∨
      ∃ k, cfg.control (.connector s) = .vis .leave k := by
  rcases (h.connector s).2 with hdone | hleave | ⟨fd, size, k, hctl⟩
  · exact .inl hdone
  · exact .inr hleave
  · obtain ⟨⟨-, j, conn, hfd, hlinked, hsize⟩, -⟩ := h.due_at hctl
    rcases blocked_of_stuck h.stuck (.connector s) with ⟨l, hctl', -⟩ | ⟨o, k', hctl', hno⟩
    · exact absurd (hctl.symm.trans hctl') (by simp)
    · obtain ⟨rfl, -⟩ := Prog.vis.inj (hctl.symm.trans hctl')
      have hpending : size ≤ conn.down.pending.length := by
        rw [Channel.pending, List.length_drop, h.root hlinked]
        omega
      exact absurd ⟨⟨j, conn, hfd, hlinked.get, hpending, rfl, rfl⟩, trivial⟩ (hno _ _)

/-- Somebody has entered fewer barriers than a connector that waits in one. -/
theorem leave_blocked (h : Stuck X cfg) {s : Fin X.M} {k : Unit → ConnectProg Connector.Label}
    (hctl : cfg.control (.connector s) = .vis .leave k) :
    cfg.shared.arrived s ≤ 2 * Connector.numGroups X.M ∧
      ∃ s' : Fin X.M, cfg.shared.arrived s' < cfg.shared.arrived s := by
  obtain ⟨⟨-, hle⟩, -⟩ := h.due_at hctl
  refine ⟨hle, ?_⟩
  rcases blocked_of_stuck h.stuck (.connector s) with ⟨l, hctl', -⟩ | ⟨o, k', hctl', hno⟩
  · exact absurd (hctl.symm.trans hctl') (by simp)
  · obtain ⟨rfl, -⟩ := Prog.vis.inj (hctl.symm.trans hctl')
    by_contra hall
    push Not at hall
    exact absurd ⟨⟨fun s' hs' => hall ⟨s', hs'⟩, rfl⟩, trivial⟩ (hno () _)

/-- All connectors have returned: the one that has entered the fewest barriers does not wait in
    one, so it has returned, and nobody can have entered more. -/
theorem connected (h : Stuck X cfg) (s : Fin X.M) :
    ∃ sockets, cfg.control (.connector s) = .ret (.connected sockets) := by
  have hne : Nonempty (Fin X.M) := ⟨s⟩
  obtain ⟨s₀, hleast⟩ := Finite.exists_min (fun s : Fin X.M => cfg.shared.arrived s)
  rcases h.returned_or_leaving s with hdone | ⟨k, hctl⟩
  · exact hdone
  · obtain ⟨hle, s', hless⟩ := h.leave_blocked hctl
    rcases h.returned_or_leaving s₀ with ⟨sockets, hctl₀⟩ | ⟨k₀, hctl₀⟩
    · obtain ⟨-, harrived⟩ := h.settled_at hctl₀
      have hmin := hleast s'
      omega
    · obtain ⟨-, s'', hless'⟩ := h.leave_blocked hctl₀
      exact absurd (hleast s'') (not_le.2 hless')

theorem accepted (h : Stuck X cfg) (c : Fin X.N) :
    ∃ sockets, cfg.control (.acceptor c) = .ret (.accepted sockets) := by
  have haccept : ∀ (c : Fin X.N) (k : ℤ → AcceptProg Acceptor.Label),
      cfg.control (.acceptor c) ≠ .vis .accept k := by
    intro c k hctl
    obtain ⟨-, hle, hlt⟩ := h.accept_blocked hctl
    have hmade := h.inv.le_sent_length (c := c) (fun s hs => by
      obtain ⟨sockets, hdone⟩ := h.connected ⟨s, hs⟩
      have hdialled : Dialled s X.N sockets cfg.shared := h.holds.post hdone
      obtain ⟨k, conn, -, hlinked⟩ := hdialled.link c c.isLt
      exact ⟨k, conn, hlinked⟩)
    omega
  rcases h.acceptor c with hdone | ⟨k, hctl⟩ | ⟨hc, buf, k, hctl⟩
  · exact hdone
  · exact absurd hctl (haccept c k)
  · -- acceptor 0 has returned, so it has told how many connectors there are
    obtain ⟨hdue, -⟩ := h.due_at hctl
    rcases h.acceptor ⟨0, X.one_le_N⟩ with ⟨sockets, hroot⟩ | ⟨k', hroot⟩ | ⟨hzero, -⟩
    · have hfilled : Filled X 0 sockets cfg.shared := h.holds.post hroot
      have hcast := hfilled.cast rfl
      rcases blocked_of_stuck h.stuck (.acceptor c) with ⟨l, hctl', -⟩ | ⟨o, k', hctl', hno⟩
      · exact absurd (hctl.symm.trans hctl') (by simp)
      · obtain ⟨rfl, -⟩ := Prog.vis.inj (hctl.symm.trans hctl')
        have hfirst : cfg.shared.cast[cfg.shared.heard c]? = some (intBytes (Int32.ofNat X.M)) := by
          rw [(hdue hc).1, hcast]
          rfl
        refine absurd ⟨?_, trivial⟩ (hno (intBytes (Int32.ofNat X.M)) { cfg.shared with
          heard := Function.update cfg.shared.heard c (cfg.shared.heard c + 1) })
        show if c.val = 0 then _ else _
        rw [if_neg hc]
        exact ⟨hfirst, rfl⟩
    · exact absurd hroot (haccept _ k')
    · exact absurd rfl hzero

end Stuck

/-! ## Every run -/

def Party.side : Party X → Fin X.M ⊕ Fin X.N
  | .connector s => .inl s
  | .acceptor c => .inr c

theorem Party.side_injective : Function.Injective (Party.side (X := X)) := by
  rintro (s | c) (s' | c') hsame
  · rw [Sum.inl.inj hsame]
  · exact absurd hsame Sum.inl_ne_inr
  · exact absurd hsame Sum.inr_ne_inl
  · rw [Sum.inr.inj hsame]

theorem finite_party : Finite (Party X) :=
  Finite.of_injective Party.side Party.side_injective

/-- What the labels of a rank are worth. -/
def worth (X : Setup) : (p : Party X) → (system X).Label p → ℕ
  | .connector _ => connectorWorth X
  | .acceptor _ => acceptorWorth X

/-- All ranks have returned, and the socket that connector `s` keeps for acceptor `c` and the one
    that `c` keeps for `s` are the ends of one connection, dialled at what `c` has published. -/
structure Wired (X : Setup) (cfg : (succeeding X).Config) (dialled : Fin X.M → List ℤ)
    (accepted : Fin X.N → List ℤ) : Prop where
  connect : ∀ s, cfg.control (.connector s) = .ret (.connected (dialled s))
  accept : ∀ c, cfg.control (.acceptor c) = .ret (.accepted (accepted c))
  dialled_length : ∀ s, (dialled s).length = X.N
  accepted_length : ∀ c, (accepted c).length = X.M
  sockets : ∀ (s : Fin X.M) (c : Fin X.N), ∃ (k : ℕ) (conn : Conn),
    (dialled s)[c.val]? = some (k : ℤ) ∧ (accepted c)[s.val]? = some (k : ℤ) ∧
      Linked cfg.shared s c k conn ∧ conn.server = X.hostname c ∧ conn.port = X.listenPort c

theorem Stuck.wired (h : Stuck X cfg) : ∃ dialled accepted, Wired X cfg dialled accepted := by
  choose dialled hconnect using h.connected
  choose accepted haccept using h.accepted
  have hdialled : ∀ s : Fin X.M, Dialled s X.N (dialled s) cfg.shared :=
    fun s => h.holds.post (hconnect s)
  have hfilled : ∀ c : Fin X.N, Filled X c (accepted c) cfg.shared :=
    fun c => h.holds.post (haccept c)
  exact ⟨dialled, accepted, hconnect, haccept, fun s => (hdialled s).length,
    fun c => (hfilled c).length, fun s c => (hdialled s).filled (hfilled c) h.inv s.isLt c.isLt⟩

/-- **Completion.** Where no socket, no lookup and no connect fails and memory suffices, every run of
    the connectors and the acceptors comes to an end in which all have returned and their sockets
    fit together. -/
theorem wiring_completes (X : Setup) (halloc : X.alloc = unlimited) :
    (succeeding X).Inevitably (Final X) (fun cfg => ∃ dialled accepted, Wired X cfg dialled accepted)
      (succeedingStart X) := by
  have hfinite : Finite (Party X) := finite_party
  refine inevitably_of_costs (Succeeding X) (fun _ _ _ => True) (worth X) ?_
    (fun _ _ _ _ _ _ => trivial) ?_ ?_ (fun p => worth X p (startLabels X p)) (succeedingStart X)
    ⟨halloc, .start⟩ (fun p => Costs.ret (le_refl _))
  · exact fun cfg cfg' h hstep => ⟨h.alloc, h.reached.step hstep⟩
  · rintro cfg (s | c) l h hctl hmore
    · exact connect_costs (h.holds.post hctl) (fun sockets hl => hmore ⟨sockets, hl⟩)
    · exact accept_costs h.holds.inv (h.holds.post hctl) (fun sockets hl => hmore ⟨sockets, hl⟩)
  · exact fun cfg h hstuck => Stuck.wired ⟨h, hstuck⟩

/-- 70 connectors and three acceptors are always wired. -/
theorem wiring_completes_three :
    (succeeding (Setup.onHost 70 3 (by decide) (by decide))).Inevitably (Final _)
      (fun cfg => ∃ dialled accepted, Wired _ cfg dialled accepted) (succeedingStart _) :=
  wiring_completes _ rfl

end Wiring

end LibIS
