import LibIS.Wiring.System

set_option autoImplicit false

/-! # Wiring two groups of ranks: the invariant

What holds of the connections, the queues and the messages in every state, and what each operation
needs to keep it. -/

open ByteCodec

namespace LibIS

namespace Wiring

/-! ## What is sent -/

namespace Setup

variable (X : Setup)

/-- The hosts of the acceptors other than 0. -/
def others : List StdString :=
  (List.range' 1 (X.N - 1)).map X.hostPortName

/-- What acceptor 0 sends to every connector. -/
def messages : List Bytes :=
  [leBytes 8 (hostsBytes X.others).length, hostsBytes X.others]

/-- All that acceptor `c` sends on a connection. -/
def answer (c : ℕ) : Bytes :=
  if c = 0 then X.messages.flatten else []

/-- All that connector `s` sends to acceptor `c`. -/
def hello (s c : ℕ) : Bytes :=
  intBytes (Int32.ofNat s) ++ if s = 0 ∧ c = 0 then intBytes (Int32.ofNat X.M) else []

/-- What acceptor `c` sends to acceptor 0. -/
def letter (c : ℕ) : List Bytes :=
  [leBytes 8 (X.hostPortName c).bytes.length, (X.hostPortName c).bytes]

variable {X} {c c' : ℕ}

theorem name_length (hc : c < X.N) : (X.hostPortName c).bytes.length ≤ 261 := by
  have hport := X.port_le c hc
  have hdigits : (toDecimal (X.listenPort c)).length ≤ 5 := toDecimal_length (by norm_num) (by omega)
  have hhost := X.hostname_length c hc
  rw [listenName_bytes (X.listen c hc), List.length_append, List.length_cons]
  omega

theorem hostsBytes_lt (X : Setup) : (hostsBytes X.others).length < 2 ^ 63 := by
  have hsum : ∀ cs : List ℕ, (∀ c ∈ cs, c < X.N) →
      ((cs.map X.hostPortName).flatMap stringBytes).length ≤ 269 * cs.length := by
    intro cs hcs
    induction cs with
    | nil => simp
    | cons c cs ih =>
        have hhead := name_length (hcs c (.head _))
        have htail := ih (fun c hc => hcs c (.tail _ hc))
        simp only [List.map_cons, List.flatMap_cons, List.length_append, stringBytes_length,
          List.length_cons]
        omega
  have hbody := hsum (List.range' 1 (X.N - 1)) (by
    intro c hc
    have hrange := List.mem_range'_1.1 hc
    have hN := X.one_le_N
    omega)
  have hN := X.N_lt
  rw [hostsBytes, vectorBytes, List.length_append, leBytes_length]
  rw [List.length_range'] at hbody
  have hothers : (X.others.flatMap stringBytes).length ≤ 269 * (X.N - 1) := hbody
  omega

theorem sendHosts_others (X : Setup) : sendHosts X.others = .ok X.messages :=
  sendHosts_eq X.hostsBytes_lt

theorem answer_root (X : Setup) :
    X.answer 0 = leBytes 8 (hostsBytes X.others).length ++ hostsBytes X.others := by
  rw [Setup.answer, if_pos rfl, Setup.messages]
  simp only [List.flatten_cons, List.flatten_nil, List.append_nil]

theorem parse_name (hc : c < X.N) :
    parseHost (X.hostPortName c) = .ok (X.hostname c, (X.listenPort c : ℤ)) := by
  have hport := X.port_le c hc
  exact parseHost_listen (X.listen c hc) (X.no_colon c hc) (by omega)

/-- No null character cuts a name short. -/
theorem name_takeWhile (hc : c < X.N) :
    (X.hostPortName c).bytes.takeWhile (· ≠ 0) = (X.hostPortName c).bytes := by
  have hmem := zero_notMem_listenName (X.listen c hc) (X.no_zero c hc)
  have hall : ∀ b ∈ (X.hostPortName c).bytes, decide (b ≠ 0) = true :=
    fun b hb => decide_eq_true (fun h => hmem (h ▸ hb))
  rw [← List.append_nil (X.hostPortName c).bytes, List.takeWhile_append_of_pos (by simpa using hall),
    List.takeWhile_nil]

/-- A host and a port have been published by one acceptor only. -/
theorem reaches_one (hc : c < X.N) (hc' : c' < X.N) (hhost : X.hostname c = X.hostname c')
    (hport : X.listenPort c = X.listenPort c') : c = c' := by
  refine X.distinct c c' hc hc' ?_
  have hname := X.listen c hc
  rw [hhost, hport, X.listen c' hc'] at hname
  exact (Except.ok.inj hname).symm

theorem htons_port (hc : c < X.N) : Connector.htons (X.listenPort c) = X.listenPort c := by
  have hport := X.port_le c hc
  unfold Connector.htons
  omega

end Setup

/-! ## The connections -/

namespace Conn

/-- Both ends stay the same. -/
structure SameEnds (conn conn' : Conn) : Prop where
  source : conn'.source = conn.source
  server : conn'.server = conn.server
  port : conn'.port = conn.port
  target : conn'.target = conn.target

theorem SameEnds.refl (conn : Conn) : conn.SameEnds conn :=
  ⟨rfl, rfl, rfl, rfl⟩

theorem SameEnds.trans {conn₁ conn₂ conn₃ : Conn} (h : conn₁.SameEnds conn₂)
    (h' : conn₂.SameEnds conn₃) : conn₁.SameEnds conn₃ :=
  ⟨h'.source.trans h.source, h'.server.trans h.server, h'.port.trans h.port,
    h'.target.trans h.target⟩

/-- What holds of every connection. -/
structure Ok (X : Setup) (conn : Conn) : Prop where
  source : conn.source < X.M
  unreached : conn.target = none → conn.up = .empty ∧ conn.down = .empty
  target : ∀ c, conn.target = some c →
    c < X.N ∧ conn.server = X.hostname c ∧ conn.port = X.listenPort c
  up : ∀ c, conn.target = some c → conn.up.sent <+: X.hello conn.source c
  down : ∀ c, conn.target = some c → conn.down.sent <+: X.answer c

theorem Ok.moved {X : Setup} {conn conn' : Conn} {c : ℕ} (h : conn.Ok X)
    (hc : conn.target = some c) (hsame : conn.SameEnds conn')
    (hup : conn'.up.sent <+: X.hello conn.source c) (hdown : conn'.down.sent <+: X.answer c) :
    conn'.Ok X := by
  have htarget : ∀ c', conn'.target = some c' → c' = c := fun c' hc' =>
    Option.some.inj (hc'.symm.trans (hsame.target.trans hc))
  constructor
  · rw [hsame.source]
    exact h.source
  · intro hnone
    exact absurd (hnone.symm.trans (hsame.target.trans hc)) (by simp)
  · intro c' hc'
    rw [hsame.server, hsame.port]
    exact h.target c' (hsame.target.symm.trans hc')
  · intro c' hc'
    rw [htarget c' hc', hsame.source]
    exact hup
  · intro c' hc'
    rw [htarget c' hc']
    exact hdown

/-- Nothing has been received by the acceptor, nor sent by it. -/
def Fresh (conn : Conn) : Prop :=
  conn.up.taken = 0 ∧ conn.down.sent = []

end Conn

namespace World

variable {w : World} {k k' : ℕ} {f : Conn → Conn} {conn conn' : Conn}

theorem mapConn_self (h : w.conns[k]? = some conn) :
    (w.mapConn k f).conns[k]? = some (f conn) := by
  rw [mapConn, List.getElem?_modify_eq, h]
  rfl

theorem mapConn_of_ne (h : k ≠ k') : (w.mapConn k f).conns[k']? = w.conns[k']? :=
  List.getElem?_modify_ne _ _ h

/-- A connection after a change of one. -/
theorem mapConn_cases (hk : w.conns[k]? = some conn)
    (h : (w.mapConn k f).conns[k']? = some conn') :
    (k' = k ∧ conn' = f conn) ∨ (k' ≠ k ∧ w.conns[k']? = some conn') := by
  by_cases hkk : k' = k
  · subst hkk
    rw [mapConn_self hk] at h
    exact .inl ⟨rfl, (Option.some.inj h).symm⟩
  · rw [mapConn_of_ne (Ne.symm hkk)] at h
    exact .inr ⟨hkk, h⟩

/-- Every connection is one of before, with the same ends. -/
theorem mapConn_back (hk : w.conns[k]? = some conn) (hsame : conn.SameEnds (f conn))
    (h : (w.mapConn k f).conns[k']? = some conn') :
    ∃ old : Conn, w.conns[k']? = some old ∧ old.SameEnds conn' := by
  rcases mapConn_cases hk h with ⟨rfl, rfl⟩ | ⟨-, hold⟩
  · exact ⟨conn, hk, hsame⟩
  · exact ⟨conn', hold, ⟨rfl, rfl, rfl, rfl⟩⟩

/-- Every connection of before is there, and has changed at most as the one has. -/
theorem mapConn_forward {R : Conn → Conn → Prop} (hrefl : ∀ conn, R conn conn)
    (hk : w.conns[k]? = some conn) (hf : R conn (f conn)) (h : w.conns[k']? = some conn') :
    ∃ conn'' : Conn, (w.mapConn k f).conns[k']? = some conn'' ∧ R conn' conn'' := by
  by_cases hkk : k = k'
  · subst hkk
    obtain rfl : conn = conn' := Option.some.inj (hk.symm.trans h)
    exact ⟨f conn, mapConn_self hk, hf⟩
  · exact ⟨conn', (mapConn_of_ne hkk).trans h, hrefl conn'⟩

end World

/-- The invariant of the system. -/
structure Inv (X : Setup) (w : World) : Prop where
  conn : ∀ (k : ℕ) (conn : Conn), w.conns[k]? = some conn → conn.Ok X
  /-- a connector dials an acceptor once -/
  unique : ∀ (k k' : ℕ) (conn conn' : Conn) (c : ℕ), w.conns[k]? = some conn →
    w.conns[k']? = some conn' → conn.source = conn'.source → conn.target = some c →
    conn'.target = some c → k = k'
  queue : ∀ c k, k ∈ (w.backlog c).sent →
    ∃ conn : Conn, w.conns[k]? = some conn ∧ conn.target = some c
  made : ∀ (k : ℕ) (conn : Conn) (c : ℕ), w.conns[k]? = some conn → conn.target = some c →
    k ∈ (w.backlog c).sent
  nodup : ∀ c, (w.backlog c).sent.Nodup
  fresh : ∀ (c k : ℕ) (conn : Conn), k ∈ w.queued c → w.conns[k]? = some conn → conn.Fresh
  mail : ∀ c, c < X.N → (w.mail c).sent <+: X.letter c
  cast : w.cast <+: [intBytes (Int32.ofNat X.M)]
  /-- who is queued at acceptor 0 has not entered the barrier behind its group -/
  waits : ∀ (k : ℕ) (conn : Conn), k ∈ w.queued 0 → w.conns[k]? = some conn →
    w.arrived conn.source ≤ conn.source / socketMaxSimultaneousConnections
  /-- who has dialled acceptor 0 has left the barrier before its group -/
  passed : ∀ (k : ℕ) (conn : Conn), w.conns[k]? = some conn → conn.target = some 0 →
    ∀ s, s < X.M → conn.source / socketMaxSimultaneousConnections ≤ w.arrived s

section Steps

variable {X : Setup} {w : World} {k : ℕ} {conn : Conn}

theorem Inv.mem_sent {c : ℕ} (hk : k ∈ w.queued c) : k ∈ (w.backlog c).sent :=
  List.mem_of_mem_drop hk

/-- A connection that is queued at an acceptor leads to it. -/
theorem Inv.target_of_queued (h : Inv X w) {c : ℕ} (hk : k ∈ w.queued c)
    (hconn : w.conns[k]? = some conn) : conn.target = some c := by
  obtain ⟨conn', hconn', htarget⟩ := h.queue c k (Inv.mem_sent hk)
  rw [hconn] at hconn'
  rw [Option.some.inj hconn']
  exact htarget

theorem Inv.mapConn (h : Inv X w) (hk : w.conns[k]? = some conn) {f : Conn → Conn}
    (hsame : conn.SameEnds (f conn)) (hok : (f conn).Ok X)
    (hfresh : ∀ c, k ∈ w.queued c → (f conn).Fresh) : Inv X (w.mapConn k f) := by
  constructor
  · intro k' conn' hconn'
    rcases World.mapConn_cases hk hconn' with ⟨rfl, rfl⟩ | ⟨-, hold⟩
    · exact hok
    · exact h.conn k' conn' hold
  · intro k₁ k₂ conn₁ conn₂ c h₁ h₂ hsource ht₁ ht₂
    obtain ⟨old₁, hold₁, hends₁⟩ := World.mapConn_back hk hsame h₁
    obtain ⟨old₂, hold₂, hends₂⟩ := World.mapConn_back hk hsame h₂
    refine h.unique k₁ k₂ old₁ old₂ c hold₁ hold₂ ?_ (hends₁.target ▸ ht₁) (hends₂.target ▸ ht₂)
    rw [← hends₁.source, ← hends₂.source, hsource]
  · intro c k' hk'
    obtain ⟨old, hold, htarget⟩ := h.queue c k' hk'
    obtain ⟨conn', hconn', hends⟩ := World.mapConn_forward Conn.SameEnds.refl hk hsame hold
    exact ⟨conn', hconn', hends.target.trans htarget⟩
  · intro k' conn' c hconn' htarget
    obtain ⟨old, hold, hends⟩ := World.mapConn_back hk hsame hconn'
    exact h.made k' old c hold (hends.target ▸ htarget)
  · exact h.nodup
  · intro c k' conn' hk' hconn'
    rcases World.mapConn_cases hk hconn' with ⟨rfl, rfl⟩ | ⟨-, hold⟩
    · exact hfresh c hk'
    · exact h.fresh c k' conn' hk' hold
  · exact h.mail
  · exact h.cast
  · intro k' conn' hk' hconn'
    obtain ⟨old, hold, hends⟩ := World.mapConn_back hk hsame hconn'
    rw [hends.source]
    exact h.waits k' old hk' hold
  · intro k' conn' hconn' htarget s hs
    obtain ⟨old, hold, hends⟩ := World.mapConn_back hk hsame hconn'
    rw [hends.source]
    exact h.passed k' old hold (hends.target ▸ htarget) s hs

theorem Inv.newConn (h : Inv X w) {s : ℕ} (hs : s < X.M) :
    Inv X { w with conns := w.conns ++ [Conn.new s] } := by
  have hcases : ∀ (k' : ℕ) (conn' : Conn), (w.conns ++ [Conn.new s])[k']? = some conn' →
      w.conns[k']? = some conn' ∨ conn' = Conn.new s := by
    intro k' conn' hconn'
    rw [List.getElem?_append] at hconn'
    split at hconn'
    · exact .inl hconn'
    · exact .inr (List.mem_singleton.1 (List.mem_of_getElem? hconn'))
  have hkeep : ∀ {k' : ℕ} {conn' : Conn}, w.conns[k']? = some conn' →
      (w.conns ++ [Conn.new s])[k']? = some conn' := fun hconn' =>
    (List.prefix_append _ _).getElem?_eq_some hconn'
  constructor
  · intro k' conn' hconn'
    rcases hcases k' conn' hconn' with hold | rfl
    · exact h.conn k' conn' hold
    · exact ⟨hs, fun _ => ⟨rfl, rfl⟩, fun _ hc => absurd hc (by simp [Conn.new]),
        fun _ hc => absurd hc (by simp [Conn.new]), fun _ hc => absurd hc (by simp [Conn.new])⟩
  · intro k₁ k₂ conn₁ conn₂ c h₁ h₂ hsource ht₁ ht₂
    rcases hcases k₁ conn₁ h₁ with hold₁ | rfl
    · rcases hcases k₂ conn₂ h₂ with hold₂ | rfl
      · exact h.unique k₁ k₂ conn₁ conn₂ c hold₁ hold₂ hsource ht₁ ht₂
      · exact absurd ht₂ (by simp [Conn.new])
    · exact absurd ht₁ (by simp [Conn.new])
  · intro c k' hk'
    obtain ⟨old, hold, htarget⟩ := h.queue c k' hk'
    exact ⟨old, hkeep hold, htarget⟩
  · intro k' conn' c hconn' htarget
    rcases hcases k' conn' hconn' with hold | rfl
    · exact h.made k' conn' c hold htarget
    · exact absurd htarget (by simp [Conn.new])
  · exact h.nodup
  · intro c k' conn' hk' hconn'
    obtain ⟨old, hold, -⟩ := h.queue c k' (Inv.mem_sent hk')
    have hsame := Option.some.inj ((hkeep hold).symm.trans hconn')
    exact hsame ▸ h.fresh c k' old hk' hold
  · exact h.mail
  · exact h.cast
  · intro k' conn' hk' hconn'
    obtain ⟨old, hold, -⟩ := h.queue 0 k' (Inv.mem_sent hk')
    have hsame := Option.some.inj ((hkeep hold).symm.trans hconn')
    exact hsame ▸ h.waits k' old hk' hold
  · intro k' conn' hconn' htarget
    rcases hcases k' conn' hconn' with hold | rfl
    · exact h.passed k' conn' hold htarget
    · exact absurd htarget (by simp [Conn.new])

theorem Inv.reach (h : Inv X w) {c : ℕ} (hk : w.conns[k]? = some conn) (hnone : conn.target = none)
    (hc : c < X.N) (hnew : ∀ (k' : ℕ) (conn' : Conn), w.conns[k']? = some conn' →
      conn'.source = conn.source → conn'.target ≠ some c)
    (hroot : c = 0 → w.arrived conn.source ≤ conn.source / socketMaxSimultaneousConnections ∧
      ∀ s, s < X.M → conn.source / socketMaxSimultaneousConnections ≤ w.arrived s) :
    Inv X { w.mapConn k (fun conn => conn.reach (X.hostname c) (X.listenPort c) c) with
      backlog := Function.update w.backlog c ((w.backlog c).push k) } := by
  obtain ⟨hup, hdown⟩ := (h.conn k conn hk).unreached hnone
  have hcases : ∀ (k' : ℕ) (conn' : Conn),
      (w.mapConn k (fun conn => conn.reach (X.hostname c) (X.listenPort c) c)).conns[k']? =
        some conn' →
      (k' = k ∧ conn' = conn.reach (X.hostname c) (X.listenPort c) c) ∨
        (k' ≠ k ∧ w.conns[k']? = some conn') :=
    fun k' conn' hconn' => World.mapConn_cases hk hconn'
  -- the socket leads nowhere yet, so it stands in no queue
  have hnot : ∀ c', k ∉ (w.backlog c').sent := by
    intro c' hmem
    obtain ⟨old, hold, htarget⟩ := h.queue c' k hmem
    rw [hk] at hold
    obtain rfl := Option.some.inj hold
    rw [hnone] at htarget
    exact absurd htarget (by simp)
  -- only the queue of acceptor `c` grows, by this socket
  have hqueued : ∀ c' k', k' ∈ (Function.update w.backlog c ((w.backlog c).push k) c').pending →
      k' ∈ w.queued c' ∨ (k' = k ∧ c' = c) := by
    intro c' k' hk'
    by_cases hcc : c' = c
    · subst hcc
      rw [Function.update_self] at hk'
      rcases Channel.mem_pending_push hk' with hold | rfl
      · exact .inl hold
      · exact .inr ⟨rfl, rfl⟩
    · rw [Function.update_of_ne hcc] at hk'
      exact .inl hk'
  constructor
  · intro k' conn' hconn'
    rcases hcases k' conn' hconn' with ⟨rfl, rfl⟩ | ⟨-, hold⟩
    · refine ⟨(h.conn _ _ hk).source, fun ht => absurd ht (by simp [Conn.reach]), ?_, ?_, ?_⟩
      · intro c' hc'
        obtain rfl := Option.some.inj hc'
        exact ⟨hc, rfl, rfl⟩
      · intro c' _
        show conn.up.sent <+: _
        rw [hup]
        exact List.nil_prefix
      · intro c' _
        show conn.down.sent <+: _
        rw [hdown]
        exact List.nil_prefix
    · exact h.conn k' conn' hold
  · intro k₁ k₂ conn₁ conn₂ c' h₁ h₂ hsource ht₁ ht₂
    rcases hcases k₁ conn₁ h₁ with ⟨rfl, rfl⟩ | ⟨hne₁, hold₁⟩
    · rcases hcases k₂ conn₂ h₂ with ⟨rfl, rfl⟩ | ⟨hne₂, hold₂⟩
      · rfl
      · obtain rfl := Option.some.inj ht₁
        exact absurd ht₂ (hnew k₂ conn₂ hold₂ hsource.symm)
    · rcases hcases k₂ conn₂ h₂ with ⟨rfl, rfl⟩ | ⟨hne₂, hold₂⟩
      · obtain rfl := Option.some.inj ht₂
        exact absurd ht₁ (hnew k₁ conn₁ hold₁ hsource)
      · exact h.unique k₁ k₂ conn₁ conn₂ c' hold₁ hold₂ hsource ht₁ ht₂
  · intro c' k' hk'
    rcases (Channel.mem_sent_update_push _ _ _ _ _).1 hk' with hold | ⟨rfl, rfl⟩
    · obtain ⟨old, hget, htarget⟩ := h.queue c' k' hold
      have hne : k' ≠ k := fun hkk => hnot c' (hkk ▸ hold)
      exact ⟨old, (World.mapConn_of_ne (Ne.symm hne)).trans hget, htarget⟩
    · exact ⟨_, World.mapConn_self hk, rfl⟩
  · intro k' conn' c' hconn' htarget
    refine (Channel.mem_sent_update_push _ _ _ _ _).2 ?_
    rcases hcases k' conn' hconn' with ⟨rfl, rfl⟩ | ⟨-, hold⟩
    · exact .inr ⟨rfl, (Option.some.inj htarget).symm⟩
    · exact .inl (h.made k' conn' c' hold htarget)
  · intro c'
    by_cases hcc : c' = c
    · subst hcc
      simp only [Function.update_self, Channel.push_sent]
      exact (List.nodup_append.2 ⟨h.nodup c', List.nodup_singleton k, fun a ha b hb hab =>
        hnot c' (by rw [← List.mem_singleton.1 hb, ← hab]; exact ha)⟩)
    · simp only [Function.update_of_ne hcc]
      exact h.nodup c'
  · intro c' k' conn' hk' hconn'
    rcases hcases k' conn' hconn' with ⟨rfl, rfl⟩ | ⟨hne, hold⟩
    · constructor
      · show conn.up.taken = 0
        rw [hup]
        rfl
      · show conn.down.sent = []
        rw [hdown]
        rfl
    · rcases hqueued c' k' hk' with hq | ⟨hkk, -⟩
      · exact h.fresh c' k' conn' hq hold
      · exact absurd hkk hne
  · exact h.mail
  · exact h.cast
  · intro k' conn' hk' hconn'
    rcases hqueued 0 k' hk' with hq | ⟨rfl, hzero⟩
    · rcases hcases k' conn' hconn' with ⟨rfl, -⟩ | ⟨-, hold⟩
      · exact absurd (Inv.mem_sent hq) (hnot 0)
      · exact h.waits k' conn' hq hold
    · rcases hcases k' conn' hconn' with ⟨-, rfl⟩ | ⟨hne, -⟩
      · exact (hroot hzero.symm).1
      · exact absurd rfl hne
  · intro k' conn' hconn' htarget s hs
    rcases hcases k' conn' hconn' with ⟨-, rfl⟩ | ⟨-, hold⟩
    · exact (hroot (Option.some.inj htarget)).2 s hs
    · exact h.passed k' conn' hold htarget s hs

theorem Inv.accept (h : Inv X w) (c : ℕ) :
    Inv X { w with backlog := Function.update w.backlog c (w.backlog c).pop } := by
  have hsent : ∀ c', (Function.update w.backlog c (w.backlog c).pop c').sent =
      (w.backlog c').sent := by
    intro c'
    by_cases hcc : c' = c
    · subst hcc
      rw [Function.update_self, Channel.pop_sent]
    · rw [Function.update_of_ne hcc]
  have hqueued : ∀ c' k', k' ∈ (Function.update w.backlog c (w.backlog c).pop c').pending →
      k' ∈ w.queued c' := by
    intro c' k' hk'
    by_cases hcc : c' = c
    · subst hcc
      rw [Function.update_self] at hk'
      exact Channel.mem_pending_of_pop hk'
    · rwa [Function.update_of_ne hcc] at hk'
  exact { h with
    queue := fun c' k' hk' => h.queue c' k' (hsent c' ▸ hk')
    made := fun k' conn' c' hconn' htarget =>
      (hsent c').symm ▸ h.made k' conn' c' hconn' htarget
    nodup := fun c' => (hsent c').symm ▸ h.nodup c'
    fresh := fun c' k' conn' hk' => h.fresh c' k' conn' (hqueued c' k' hk')
    waits := fun k' conn' hk' => h.waits k' conn' (hqueued 0 k' hk') }

/-- A barrier is entered by a connector that is before its group, or is not queued. -/
theorem Inv.arrive (h : Inv X w) {s : ℕ}
    (hs : w.arrived s < s / socketMaxSimultaneousConnections ∨
      ∀ (k : ℕ) (conn : Conn), k ∈ w.queued 0 → w.conns[k]? = some conn → conn.source ≠ s) :
    Inv X { w with arrived := Function.update w.arrived s (w.arrived s + 1) } := by
  refine { h with waits := ?_, passed := ?_ }
  · intro k conn hk hconn
    have hold := h.waits k conn hk hconn
    by_cases hsource : conn.source = s
    · rcases hs with hbefore | hnot
      · simp only [hsource, Function.update_self]
        omega
      · exact absurd hsource (hnot k conn hk hconn)
    · simp only [Function.update_of_ne hsource]
      exact hold
  · intro k conn hconn htarget s' hs'
    refine (h.passed k conn hconn htarget s' hs').trans ?_
    by_cases hss : s' = s
    · subst hss
      simp only [Function.update_self]
      exact Nat.le_succ _
    · simp only [Function.update_of_ne hss]
      exact le_refl _

theorem Inv.sendMail (h : Inv X w) {c : ℕ} {data : Bytes}
    (hdata : (w.mail c).sent ++ [data] <+: X.letter c) :
    Inv X { w with mail := Function.update w.mail c ((w.mail c).push data) } := by
  refine { h with mail := ?_ }
  intro c' hc'
  by_cases hcc : c' = c
  · subst hcc
    simp only [Function.update_self, Channel.push_sent]
    exact hdata
  · simp only [Function.update_of_ne hcc]
    exact h.mail c' hc'

theorem Inv.takeMail (h : Inv X w) (c : ℕ) :
    Inv X { w with mail := Function.update w.mail c (w.mail c).pop } := by
  refine { h with mail := ?_ }
  intro c' hc'
  by_cases hcc : c' = c
  · subst hcc
    simp only [Function.update_self, Channel.pop_sent]
    exact h.mail c' hc'
  · simp only [Function.update_of_ne hcc]
    exact h.mail c' hc'

end Steps

end Wiring

end LibIS
