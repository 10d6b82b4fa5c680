import LibIS.Wiring.Schedule

set_option autoImplicit false

/-! # Wiring two groups of ranks: how many connections are queued

The first loop lets at most one group be queued at acceptor 0, since each connector waits there for
its answer before the barrier. The second loop waits for no answer, and the barrier is one of the
connectors only: an acceptor that is slow can have all of them queued (`exceeds`). -/

open ByteCodec Prog ThreadSystem

namespace LibIS

namespace Wiring

variable {X : Setup} {cfg : (system X).Config} {w : World}

/-! ## The ranks that are queued -/

/-- The connector that has made connection `k`. -/
def World.source (w : World) (k : ℕ) : ℕ :=
  (w.conns[k]?.map Conn.source).getD 0

theorem World.source_eq {k : ℕ} {conn : Conn} (h : w.conns[k]? = some conn) :
    w.source k = conn.source := by
  rw [World.source, h]
  rfl

theorem Inv.conn_of_queued (h : Inv X w) {c k : ℕ} (hk : k ∈ w.queued c) :
    ∃ conn : Conn, Linked w (w.source k) c k conn := by
  obtain ⟨conn, hget, htarget⟩ := h.queue c k (Inv.mem_sent hk)
  exact ⟨conn, hget, (World.source_eq hget).symm, htarget⟩

theorem Inv.sources_nodup (h : Inv X w) (c : ℕ) : ((w.queued c).map w.source).Nodup := by
  have hqueue : (w.queued c).Nodup := (h.nodup c).sublist (List.drop_sublist _ _)
  refine hqueue.map_on (fun k hk k' hk' hsame => ?_)
  obtain ⟨conn, hlinked⟩ := h.conn_of_queued hk
  obtain ⟨conn', hlinked'⟩ := h.conn_of_queued hk'
  exact h.unique k k' conn conn' c hlinked.get hlinked'.get
    (hlinked.source.trans (hsame.trans hlinked'.source.symm)) hlinked.target hlinked'.target

/-- The queue is no longer than a list of all connectors that may be queued. -/
theorem Inv.queued_le (h : Inv X w) {c : ℕ} {ranks : List ℕ}
    (hranks : ∀ k ∈ w.queued c, w.source k ∈ ranks) : (w.queued c).length ≤ ranks.length := by
  have hsub : (w.queued c).map w.source ⊆ ranks := by
    intro s hs
    obtain ⟨k, hk, rfl⟩ := List.mem_map.1 hs
    exact hranks k hk
  have hle := (h.sources_nodup c).length_le_of_subset hsub
  rwa [List.length_map] at hle

theorem Inv.source_lt (h : Inv X w) {c k : ℕ} (hk : k ∈ w.queued c) : w.source k < X.M := by
  obtain ⟨conn, hlinked⟩ := h.conn_of_queued hk
  exact hlinked.source ▸ (h.conn k conn hlinked.get).source

/-! ## Acceptor 0 -/

/-- All that are queued at acceptor 0 are of one group. -/
theorem Inv.same_group (h : Inv X w) {k k' : ℕ} (hk : k ∈ w.queued 0) (hk' : k' ∈ w.queued 0) :
    groupOf (w.source k) = groupOf (w.source k') := by
  have hle : ∀ k k', k ∈ w.queued 0 → k' ∈ w.queued 0 →
      groupOf (w.source k) ≤ groupOf (w.source k') := by
    intro k k' hk hk'
    obtain ⟨conn, hlinked⟩ := h.conn_of_queued hk
    obtain ⟨conn', hlinked'⟩ := h.conn_of_queued hk'
    have hpassed := h.passed k conn hlinked.get hlinked.target (w.source k') (h.source_lt hk')
    have hwaits := h.waits k' conn' hk' hlinked'.get
    rw [hlinked.source] at hpassed
    rw [hlinked'.source] at hwaits
    exact hpassed.trans hwaits
  exact le_antisymm (hle k k' hk hk') (hle k' k hk' hk)

theorem queued_root_le (h : Inv X w) : (w.queued 0).length ≤ socketMaxSimultaneousConnections := by
  cases hqueue : w.queued 0 with
  | nil => exact Nat.zero_le _
  | cons k₀ ks =>
      have hk₀ : k₀ ∈ w.queued 0 := hqueue ▸ List.mem_cons_self ..
      have hranks : ∀ k ∈ w.queued 0, w.source k ∈
          List.range' (socketMaxSimultaneousConnections * groupOf (w.source k₀))
            socketMaxSimultaneousConnections := by
        intro k hk
        have hin : Connector.InGroup (w.source k)
            (socketMaxSimultaneousConnections * groupOf (w.source k₀)) :=
          Connector.inGroup_iff.2 (h.same_group hk hk₀)
        exact List.mem_range'_1.2 hin
      have hle := h.queued_le hranks
      rwa [hqueue, List.length_range'] at hle

/-! ## The other acceptors -/

/-- Up to 32 connectors cannot be too many. -/
theorem queued_le_of_few (h : Inv X w) (hM : X.M ≤ socketMaxSimultaneousConnections) (c : ℕ) :
    (w.queued c).length ≤ socketMaxSimultaneousConnections := by
  have hranks : ∀ k ∈ w.queued c, w.source k ∈ List.range X.M :=
    fun k hk => List.mem_range.2 (h.source_lt hk)
  have hle := h.queued_le hranks
  rw [List.length_range] at hle
  exact hle.trans hM

/-- There is a run in which all connectors are queued at acceptor 1. -/
theorem exceeds (X : Setup) (halloc : X.alloc = unlimited) (hN : 1 < X.N) :
    ∃ cfg, Reached X cfg ∧ X.M ≤ (cfg.shared.queued 1).length := by
  obtain ⟨cfg, hquiet, hall⟩ := exists_connected X halloc
  have hinv := (holds_of_reachable hquiet.reached).inv
  have hwaiting := hquiet.waiting ⟨1, hN⟩ Nat.one_ne_zero
  obtain ⟨haccepted, -⟩ := acceptor_post hquiet.reached hwaiting
  refine ⟨cfg, hquiet.reached, ?_⟩
  have hqueue : cfg.shared.queued 1 = (cfg.shared.backlog 1).sent := by
    have htaken : (cfg.shared.backlog 1).taken = 0 := haccepted.count
    rw [World.queued, Channel.pending, htaken, List.drop_zero]
  have hsub : List.range X.M ⊆ (cfg.shared.queued 1).map cfg.shared.source := by
    intro s hs
    obtain ⟨l, hctl, sockets, rfl⟩ := hall ⟨s, List.mem_range.1 hs⟩
    have hdialled : Dialled s X.N sockets cfg.shared := connector_post hquiet.reached hctl
    obtain ⟨k, conn, -, hlinked⟩ := hdialled.link 1 hN
    have hsent := hinv.made k conn 1 hlinked.get hlinked.target
    have hsource : cfg.shared.source k = s := (World.source_eq hlinked.get).trans hlinked.source
    exact hsource ▸ List.mem_map_of_mem (hqueue ▸ hsent)
  have hle := List.nodup_range.length_le_of_subset hsub
  rwa [List.length_range, List.length_map] at hle

/-! ## The limit -/

/-- No acceptor ever has more connections queued than its socket has been told to queue. -/
def WithinLimit (X : Setup) : Prop :=
  ∀ cfg, Reached X cfg → ∀ c : Fin X.N,
    (cfg.shared.queued c).length ≤ socketMaxSimultaneousConnections

/-- The setup with another allocator. -/
def Setup.withAlloc (X : Setup) (alloc : Allocator) : Setup :=
  { X with alloc := alloc }

/-- **Connection rate limit.** The limit is kept in all runs just when there are at most 32
    connectors or only acceptor 0. Acceptor 0 keeps it always, and each connector is in one group.
    -/
theorem queues_limited_iff (X : Setup) :
    ((∀ alloc, WithinLimit (X.withAlloc alloc)) ↔
        X.M ≤ socketMaxSimultaneousConnections ∨ X.N = 1) ∧
      (∀ cfg, Reached X cfg →
        (cfg.shared.queued 0).length ≤ socketMaxSimultaneousConnections) ∧
      ∀ s, s < X.M → (Connector.groups X.M).filter (fun i => Connector.InGroup s i) =
        [socketMaxSimultaneousConnections * groupOf s] := by
  refine ⟨⟨fun h => ?_, ?_⟩, fun cfg h => queued_root_le (holds_of_reachable h).inv,
    fun s hs => Connector.filter_inGroup hs⟩
  · by_contra hnot
    obtain ⟨hM, hN⟩ := not_or.1 hnot
    have hone := X.one_le_N
    have htwo : 1 < X.N := by omega
    obtain ⟨cfg, hreached, hle⟩ := exceeds (X.withAlloc unlimited) rfl htwo
    exact hM (hle.trans (h unlimited cfg hreached ⟨1, htwo⟩))
  · rintro (hM | hN) alloc cfg h c
    · exact queued_le_of_few (holds_of_reachable h).inv hM c
    · obtain ⟨c, hc⟩ := c
      have hone : c < X.N := hc
      obtain rfl : c = 0 := by omega
      exact queued_root_le (holds_of_reachable h).inv

/-- 33 connectors can be queued at the second of two acceptors. -/
theorem second_loop_unlimited : ¬ WithinLimit (Setup.onHost 33 2 (by decide) (by decide)) := by
  intro h
  obtain ⟨cfg, hreached, hle⟩ := exceeds (Setup.onHost 33 2 (by decide) (by decide)) rfl (by decide)
  have hlimit := hle.trans (h cfg hreached ⟨1, by decide⟩)
  exact absurd hlimit (by decide)

end Wiring

end LibIS
