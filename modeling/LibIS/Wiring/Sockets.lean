import LibIS.Wiring.Schedule

set_option autoImplicit false

/-! # Wiring two groups of ranks: the sockets

When all ranks have returned, the vectors of sockets fit together (`sockets_wired`). With one acceptor
the schedule can be run to this end. -/

open ByteCodec Prog ThreadSystem

namespace LibIS

namespace Wiring

variable {X : Setup} {cfg : (system X).Config}

/-! ## A run to the end -/

/-- Where every connector has dialled acceptor 0 and nothing is queued there, all of them have been
    accepted. -/
theorem Accepted.of_connected {peers : List (ℕ × ℕ)} {w : World} (h : Accepted 0 peers w)
    (hinv : Inv X w) (hqueue : w.queued 0 = [])
    (hdialled : ∀ s, s < X.M → ∃ sockets, Dialled s X.N sockets w) :
    peers.length = X.M ∧ 0 ∈ peers.map Prod.fst := by
  have hall : ∀ s, s < X.M → s ∈ peers.map Prod.fst := by
    intro s hs
    obtain ⟨sockets, hat⟩ := hdialled s hs
    obtain ⟨k, conn, -, hlinked⟩ := hat.link 0 X.one_le_N
    have hsent := hinv.made k conn 0 hlinked.get hlinked.target
    rw [← List.take_append_drop (w.backlog 0).taken (w.backlog 0).sent, List.mem_append,
      h.taken] at hsent
    rcases hsent with htaken | hpending
    · obtain ⟨p, hp, rfl⟩ := List.mem_map.1 (List.mem_reverse.1 htaken)
      obtain ⟨conn', hlinked'⟩ := h.link p hp
      have hsame : conn' = conn := Option.some.inj (hlinked'.get.symm.trans hlinked.get)
      have hrank : p.1 = s := hlinked'.source.symm.trans (hsame ▸ hlinked.source)
      exact hrank ▸ List.mem_map_of_mem hp
    · have hnil : k ∈ w.queued 0 := hpending
      rw [hqueue] at hnil
      exact absurd hnil (by simp)
  have hsub : List.range X.M ⊆ peers.map Prod.fst := fun s hs => hall s (List.mem_range.1 hs)
  have hperm := (h.subperm hinv).antisymm (List.subperm_of_subset List.nodup_range hsub)
  have hlen := hperm.length_eq
  rw [List.length_map, List.length_range] at hlen
  exact ⟨hlen, hall 0 X.one_le_M⟩

/-- With one acceptor, there is a run in which all ranks return. -/
theorem exists_complete (X : Setup) (halloc : X.alloc = unlimited) (hone : X.N = 1) :
    ∃ (cfg : (system X).Config) (dialled : Fin X.M → List ℤ) (accepted : Fin X.N → List ℤ),
      Reached X cfg ∧ (∀ s, cfg.control (.connector s) = .ret (.connected (dialled s))) ∧
        ∀ c, cfg.control (.acceptor c) = .ret (.accepted (accepted c)) := by
  obtain ⟨cfg, hquiet, hall⟩ := exists_connected X halloc
  have hinv := (holds_of_reachable hquiet.reached).inv
  choose l hctl hl using hall
  choose dialled hdialled using hl
  have hconnected : ∀ s : Fin X.M, cfg.control (.connector s) = .ret (.connected (dialled s)) :=
    fun s => hdialled s ▸ hctl s
  -- acceptor 0 finds that it has accepted as many as it expects
  obtain ⟨hosts, st, hroot⟩ := hquiet.root
  obtain ⟨peers, hat⟩ := acceptor_post hquiet.reached hroot
  obtain ⟨hlen, hzero⟩ := Accepted.of_connected hat.accepted hinv hquiet.queue
    (fun s hs => ⟨_, connector_post hquiet.reached (hconnected ⟨s, hs⟩)⟩)
  have hdone : st.nconnected = st.nexpected.toInt := by
    rw [hat.locals.nconnected, hat.locals.nexpected, if_pos rfl, expectedAt, if_pos hzero,
      Acceptor.toInt_rank X.M_lt, hlen]
  obtain ⟨sockets, hfill, -⟩ := hat.filled hinv hdone
  have hcode : (system X).Runs (Party.root X) (Acceptor.accept 0 X.N (X.hostPortName 0)
      (.accepting hosts st)) cfg.shared (.accepted sockets) cfg.shared := by
    simp only [Acceptor.accept]
    rw [if_neg (not_not.2 hdone), hfill]
    exact .ret _ _
  obtain ⟨cfg', hturned⟩ := turn hquiet.reached hroot hcode
  refine ⟨cfg', dialled, fun _ => sockets, hturned.reached, fun s => ?_, fun c => ?_⟩
  · exact (hturned.others _ (acceptor_ne_connector _ s).symm).trans (hconnected s)
  · obtain rfl : c = ⟨0, X.one_le_N⟩ := Fin.ext (by omega)
    exact hturned.here

/-! ## When all have returned -/

/-- A connector and an acceptor that have returned keep the two ends of one connection, dialled at
    what the acceptor has published. -/
theorem Dialled.filled {s c : ℕ} {dialled accepted : List ℤ} {w : World}
    (h : Dialled s X.N dialled w) (h' : Filled X c accepted w) (hinv : Inv X w) (hs : s < X.M)
    (hc : c < X.N) :
    ∃ (k : ℕ) (conn : Conn), dialled[c]? = some (k : ℤ) ∧ accepted[s]? = some (k : ℤ) ∧
      Linked w s c k conn ∧ conn.server = X.hostname c ∧ conn.port = X.listenPort c := by
  obtain ⟨k, conn, hdialled, hlinked⟩ := h.link c hc
  obtain ⟨k', conn', haccepted, hlinked'⟩ := h'.link s hs
  obtain rfl : k = k' := hinv.unique k k' conn conn' c hlinked.get hlinked'.get
    (hlinked.source.trans hlinked'.source.symm) hlinked.target hlinked'.target
  obtain ⟨-, hserver, hport⟩ := (hinv.conn k conn hlinked.get).target c hlinked.target
  exact ⟨k, conn, hdialled, haccepted, hlinked, hserver, hport⟩

/-- **Socket wiring.** When all connectors and all acceptors have returned, each connector has as
    many sockets as there are acceptors and each acceptor as many as there are connectors. The
    socket that connector `s` keeps for acceptor `c` and the one that `c` keeps for `s` are the ends
    of one connection between them, dialled at what `c` has published. Each acceptor has accepted as
    many connections as there are connectors, and their number has been broadcast once. -/
theorem sockets_wired (X : Setup) {cfg : (system X).Config} (h : Reached X cfg)
    (dialled : Fin X.M → List ℤ) (accepted : Fin X.N → List ℤ)
    (hconnect : ∀ s, cfg.control (.connector s) = .ret (.connected (dialled s)))
    (haccept : ∀ c, cfg.control (.acceptor c) = .ret (.accepted (accepted c))) :
    (∀ s, (dialled s).length = X.N) ∧ (∀ c, (accepted c).length = X.M) ∧
      (∀ (s : Fin X.M) (c : Fin X.N), ∃ (k : ℕ) (conn : Conn),
        (dialled s)[c.val]? = some (k : ℤ) ∧ (accepted c)[s.val]? = some (k : ℤ) ∧
          Linked cfg.shared s c k conn ∧ conn.server = X.hostname c ∧
          conn.port = X.listenPort c) ∧
      (∀ c : Fin X.N, (cfg.shared.backlog c).taken = X.M) ∧
      cfg.shared.cast = [intBytes (Int32.ofNat X.M)] := by
  have hinv := (holds_of_reachable h).inv
  have hdialled : ∀ s : Fin X.M, Dialled s X.N (dialled s) cfg.shared :=
    fun s => connector_post h (hconnect s)
  have hfilled : ∀ c : Fin X.N, Filled X c (accepted c) cfg.shared :=
    fun c => acceptor_post h (haccept c)
  refine ⟨fun s => (hdialled s).length, fun c => (hfilled c).length, fun s c => ?_,
    fun c => (hfilled c).taken, (hfilled ⟨0, X.one_le_N⟩).cast rfl⟩
  exact (hdialled s).filled (hfilled c) hinv s.isLt c.isLt

/-- 33 connectors and one acceptor are wired by a run. -/
theorem sockets_wired_run :
    ∃ (cfg : (system (Setup.onHost 33 1 (by decide) (by decide))).Config)
      (dialled : Fin 33 → List ℤ) (accepted : Fin 1 → List ℤ),
      Reached _ cfg ∧ (∀ s, (dialled s).length = 1) ∧ (∀ c, (accepted c).length = 33) ∧
        (∀ (s : Fin 33) (c : Fin 1), ∃ (k : ℕ) (conn : Conn),
          (dialled s)[c.val]? = some (k : ℤ) ∧ (accepted c)[s.val]? = some (k : ℤ) ∧
            Linked cfg.shared s c k conn ∧ conn.server = [104] ∧ conn.port = c + 1) ∧
        (∀ c : Fin 1, (cfg.shared.backlog c).taken = 33) ∧
        cfg.shared.cast = [intBytes 33] := by
  obtain ⟨cfg, dialled, accepted, h, hconnect, haccept⟩ :=
    exists_complete (Setup.onHost 33 1 (by decide) (by decide)) rfl rfl
  exact ⟨cfg, dialled, accepted, h, sockets_wired _ h dialled accepted hconnect haccept⟩

end Wiring

end LibIS
