import LibIS.Session.StateMachine

set_option autoImplicit false

/-! # Sessions: commands and replies

What the proof outline says about the commands of a run: each is taken once, in the order they were
given, and is replied to by whoever has taken it; the ranks of a client end their calls alike. -/

open ByteCodec Prog ThreadSystem Proof

namespace LibIS

namespace Session

/-- The commands that have been taken, with their takers. -/
def World.served (w : World) : List (Taker × Int32) :=
  (w.issued.zip w.takes).map (fun e => (e.2, e.1.command))

/-- What `simQuit` was after each call of a client rank. -/
def ClientLabel.quits : ClientLabel → List Int32
  | .start => []
  | .connected _ quits _ => quits
  | .gone quits => quits

/-- Commands, takers and replies are paired one by one, in order, with at most one command that has
    no reply yet. -/
structure Paired (w : World) : Prop where
  sessions : Sessions w.issued
  takes_le : w.takes.length ≤ w.issued.length
  issued_le : w.issued.length ≤ w.replied.length + 1
  replied : w.replied <+: w.takes.map Taker.reply
  /-- what a client has been sent as quit flags are the replies to its commands -/
  flags : ∀ i, quitFlags (w.down i 0).sent =
    (answeredOf i w.issued (w.takes.take w.replied.length)).map (fun e => intBytes e.2.reply)
  /-- after a command that the destructor has taken no other is taken -/
  destructor : .destructor ∉ w.takes.dropLast

section Consequences

variable {X : Setup} {w : World} (h : Inv X w)
include h

theorem Inv.paired : Paired w where
  sessions := h.sessions
  takes_le := h.takes_le
  issued_le := h.issued_le
  replied := h.replied
  flags i := by
    have hle := h.replied_le
    have hlen : (w.takes.take w.replied.length).length = w.replied.length :=
      List.length_take_of_le hle
    have hsent := h.flags_prefix i
    have htaken : (answeredOf i w.issued (w.takes.take w.replied.length)).map
        (fun e => intBytes e.2.reply) <+:
        (answeredOf i w.issued w.takes).map (fun e => intBytes e.2.reply) :=
      (answeredOf_grow i (List.prefix_refl _) (List.take_prefix _ _)).map _
    -- both are the start of what the takers reply, and of the same length
    have hcount : (quitFlags (w.down i 0).sent).length =
        ((answeredOf i w.issued (w.takes.take w.replied.length)).map
          (fun e => intBytes e.2.reply)).length := by
      have hfst := congrArg List.length (answeredOf_fst i (hlen.le.trans (hle.trans h.takes_le)))
      rw [hlen, List.length_map] at hfst
      rw [h.quits i, List.length_map, hfst]
    exact (List.prefix_of_prefix_length_le hsent htaken hcount.le).eq_of_length hcount
  destructor := h.processes

/-- The calls of a client's rank 0 end with the replies to its commands. -/
theorem Inv.quits_eq {i : ℕ} {l : ClientLabel} (hpost : clientPost X i 0 l w) :
    l.quits = (answeredOf i w.issued w.takes).map (fun e => e.2.reply) ∧
      l.quits.length = (commandsOf i w.issued).length := by
  cases l with
  | start =>
      obtain ⟨-, hnew⟩ := hpost.1 rfl
      have hnone : commandsOf i w.issued = [] := by
        by_contra hgiven
        exact hnew (List.mem_of_mem_take (h.mem_dials hgiven))
      have hanswered := answeredOf_fst i h.takes_le
      have hbegins := commandsOf_grow i (List.take_prefix w.takes.length w.issued)
      rw [hnone, List.prefix_nil] at hbegins
      rw [hbegins, List.map_eq_nil_iff] at hanswered
      rw [hanswered, hnone]
      exact ⟨rfl, rfl⟩
  | connected this quits queries =>
      obtain ⟨es, hquits, ⟨-, hat⟩, -⟩ := hpost.2.1 rfl
      have hall := h.known_all hat.answered hat.commands.symm
      simp only [ClientLabel.quits]
      rw [← hall, hat.commands, hquits]
      simp
  | gone quits =>
      obtain ⟨es, asked, hquits, hat⟩ := hpost.1 rfl
      have hall := h.known_all hat.answered hat.commands.symm
      simp only [ClientLabel.quits]
      rw [← hall, hat.commands, hquits]
      simp

end Consequences

/-- The calls of a client rank end with what its rank 0 has broadcast. -/
theorem quits_cast {X : Setup} {i c : ℕ} {l : ClientLabel} {w : World}
    (hpost : clientPost X i c l w) :
    l.quits = [] ∨ intBytes 0 :: l.quits.map intBytes <+: w.clientCast i := by
  cases l with
  | start => exact .inl rfl
  | connected this quits queries =>
      refine .inr ?_
      by_cases hc : c = 0
      · obtain ⟨es, rfl, ⟨-, hat⟩, -⟩ := hpost.2.1 hc
        rw [hat.cast, ClientLabel.quits, List.map_map]
        exact List.prefix_refl _
      · obtain ⟨n, -, hat⟩ := hpost.2.2 hc
        exact hat.cast
  | gone quits =>
      refine .inr ?_
      by_cases hc : c = 0
      · obtain ⟨es, asked, rfl, hat⟩ := hpost.1 hc
        rw [hat.cast, ClientLabel.quits, List.map_map]
        exact List.prefix_refl _
      · obtain ⟨n, hat⟩ := hpost.2 hc
        exact hat.cast

/-- The ranks of a client leave the same call with the same `simQuit`. -/
theorem quits_agree {X : Setup} {i c c' : ℕ} {l l' : ClientLabel} {w : World}
    (hpost : clientPost X i c l w) (hpost' : clientPost X i c' l' w) {n : ℕ} {q q' : Int32}
    (hq : l.quits[n]? = some q) (hq' : l'.quits[n]? = some q') : q = q' := by
  have hcast : ∀ {c : ℕ} {l : ClientLabel} {q : Int32}, clientPost X i c l w →
      l.quits[n]? = some q → (w.clientCast i)[n + 1]? = some (intBytes q) := by
    intro c l q hpost hq
    rcases quits_cast hpost with hnil | hbegins
    · rw [hnil] at hq
      exact absurd hq (by simp)
    · refine hbegins.getElem?_eq_some ?_
      rw [List.getElem?_cons_succ, List.getElem?_map, hq]
      rfl
  have hsame := hcast hpost hq
  rw [hcast hpost' hq', Option.some.injEq] at hsame
  rw [← intOfBytes_intBytes q, ← hsame, intOfBytes_intBytes]

/-- **Commands and replies.** Along every run, with any number of sessions and whenever the manager
    is destroyed: commands, takers and replies are paired one by one; the calls of `process()` have
    executed the commands they have taken, in order, and after the destructor none is left; rank 0
    of a client has got the replies to its commands, one for each; the ranks of a client leave the
    same call with the same `simQuit`; who is due to receive finds what it expects; a frame is
    published when no command waits, and the mutex is released when every command taken has its
    reply; and once a client has been told to quit, none of its ranks asks a simulation rank for its
    state, and rank 0 sends none. -/
theorem commands_and_replies (X : Setup) (cfg : (system X).Config)
    (hcfg : (system X).Reachable ((system X).start World.init (startLabels X)) cfg) :
    Paired cfg.shared ∧
      (∀ calls, cfg.control .main = .ret (.running calls) →
        cfg.shared.served = executed calls ∧
          cfg.shared.takes.length = cfg.shared.replied.length) ∧
      (∀ calls result, cfg.control .main = .ret (.finalized calls result) →
        (∃ last, cfg.shared.served = executed calls ++ last ∧ ∀ e ∈ last, e.1 = .destructor) ∧
          cfg.shared.issued.length = cfg.shared.replied.length) ∧
      (∀ i (c : Fin (X.size i)) l, (c : ℕ) = 0 → cfg.control (.client i c) = .ret l →
        l.quits = (answeredOf i cfg.shared.issued cfg.shared.takes).map (fun e => e.2.reply) ∧
          l.quits.length = (commandsOf i cfg.shared.issued).length) ∧
      (∀ i (c c' : Fin (X.size i)) l l', cfg.control (.client i c) = .ret l →
        cfg.control (.client i c') = .ret l' →
        ∀ (n : ℕ) q q', l.quits[n]? = some q → l'.quits[n]? = some q' → q = q') ∧
      (∀ i kind size rank k, cfg.control .main = .vis (.recv i kind size rank) k →
        ∀ m, (cfg.shared.up i rank).next? = some m → m.kind = kind ∧ m.data.length = size) ∧
      (∀ i (c : Fin (X.size i)) comm kind size k,
        cfg.control (.client i c) = .vis (.recv comm kind size 0) k →
        ∀ m, (cfg.shared.down i 0).next? = some m → m.kind = kind ∧ m.data.length = size) ∧
      (∀ cm k, cfg.control .listener = .vis (.unlock cm) k →
        cfg.shared.manager.newQuery = false ∧ cfg.shared.manager.intercomm = none) ∧
      (∀ cm k, cfg.control .main = .vis (.unlock cm) k →
        cfg.shared.takes.length = cfg.shared.replied.length) ∧
      (∀ i (c : Fin (X.size i)) comm data region k,
        cfg.control (.client i c) = .vis (.send comm .ping data region) k →
        ∀ quit ∈ quitFlags (cfg.shared.down i 0).sent, quit = intBytes 0) ∧
      (∀ i data rank k, cfg.control .main = .vis (.send i .data data rank) k →
        .destructor ∉ cfg.shared.takes) := by
  have hholds := sound (outline_valid X) hcfg
  have hinv := hholds.inv
  refine ⟨hinv.paired, ?_, ?_, ?_, ?_, ?_, ?_, ?_, ?_, ?_, ?_⟩
  · intro calls hctl
    obtain ⟨-, -, -, b, hsettled⟩ := hholds.post hctl
    have hserved := hsettled.answered.served
    rw [List.take_of_length_le hsettled.takes.le] at hserved
    exact ⟨hserved, hsettled.takes.trans hsettled.replied.symm⟩
  · intro calls result hctl
    obtain ⟨-, -, hfinal⟩ := hholds.post hctl
    exact ⟨hfinal.served, hfinal.replied⟩
  · intro i c l hc hctl
    have hpost : clientPost X i c l cfg.shared := hholds.post hctl
    rw [hc] at hpost
    exact hinv.quits_eq hpost
  · intro i c c' l l' hctl hctl' n q q' hq hq'
    exact quits_agree (hholds.post hctl) (hholds.post hctl') hq hq'
  · intro i kind size rank k hctl
    exact hholds.ready hctl
  · intro i c comm kind size k hctl
    exact (hholds.ready hctl rfl).2
  · intro cm k hctl
    have hready : readyListener (.unlock cm) cfg.shared := hholds.ready hctl
    exact ⟨hready.2.2.2, hready.2.2.1⟩
  · intro cm k hctl
    exact (hholds.ready hctl).2
  · intro i c comm data region k hctl
    exact (hholds.ready hctl).1 rfl
  · intro i data rank k hctl
    exact hinv.processing ((hholds.ready hctl).2 rfl)

/-- The client's three commands are taken, replied to and executed one by one, and its rank 1 asks
    its own simulation rank for data when two replies of 0 have been sent. -/
theorem commands_and_replies_session :
    Paired (after leaving).shared ∧
      (after leaving).shared.served = executed [.connect, .query, .disconnect] ∧
      (∃ l, (after leaving).control clientRoot = .ret l ∧ l.quits = [0, 0, 0] ∧
        l.quits.length = (commandsOf 0 (after leaving).shared.issued).length) ∧
      ∃ k, (after pinging).control clientOther = .vis (.send 0 .ping (intBytes 1) 1) k ∧
        (quitFlags ((after pinging).shared.down 0 0).sent).length = 2 ∧
        ∀ quit ∈ quitFlags ((after pinging).shared.down 0 0).sent, quit = intBytes 0 := by
  have hleaving := commands_and_replies pairSetup _ (after_reachable leaving)
  have hpinging := commands_and_replies pairSetup _ (after_reachable pinging)
  have hmain : ((after leaving).control .main).result? =
      some (.running [.connect, .query, .disconnect]) := by decide +kernel
  have hquits : (((after leaving).control clientRoot).result?).map ClientLabel.quits =
      some [0, 0, 0] := by decide +kernel
  obtain ⟨l, hl, hlquits⟩ := Option.map_eq_some_iff.1 hquits
  have hping : ((after pinging).control clientOther).due? =
      some (.send 0 .ping (intBytes 1) 1) := by decide +kernel
  obtain ⟨k, hk⟩ := due?_eq_some hping
  obtain ⟨hpaired, hserved, -, hcommands, -⟩ := hleaving
  obtain ⟨-, -, -, -, -, -, -, -, -, hzero, -⟩ := hpinging
  exact ⟨hpaired, (hserved _ (result?_eq_some hmain)).1,
    ⟨l, result?_eq_some hl, hlquits, (hcommands 0 (0 : Fin 2) l rfl (result?_eq_some hl)).2⟩,
    k, hk, by decide +kernel, hzero 0 (1 : Fin 2) 0 _ 1 k hk⟩

end Session

end LibIS
