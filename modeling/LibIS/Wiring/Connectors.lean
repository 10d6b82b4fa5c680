import LibIS.Wiring.Outline

set_option autoImplicit false

/-! # Wiring two groups of ranks: the connectors

A connector dials the acceptors in the order of their ranks, acceptor 0 in its group of the first
loop and the others, whose names acceptor 0 has sent, in its group of the second. -/

open ByteCodec Prog ThreadSystem Proof

namespace LibIS

namespace Wiring

variable {X : Setup} {s : Fin X.M}

/-! ## What connector `s` knows while it dials -/

section Dial

variable {w w' : World} {n a : ℕ} {sock : ℤ} {sockets : List ℤ} {sent : Bytes}

/-- It has made the socket for acceptor `n`, which may have failed. -/
structure Dialling (s n a : ℕ) (sockets : List ℤ) (sock : ℤ) (w : World) : Prop where
  arrived : w.arrived s = a
  dialled : Dialled s n sockets w
  sock : sock = -1 ∨ Unreached s sock w

/-- It has dialled acceptor `n`, and sent `sent`. -/
structure Greeting (s n a : ℕ) (sockets : List ℤ) (sock : ℤ) (sent : Bytes) (w : World) : Prop where
  arrived : w.arrived s = a
  dialled : Dialled s (n + 1) (sockets ++ [sock]) w
  sock : ∃ (k : ℕ) (conn : Conn), sock = k ∧ Linked w s n k conn ∧ conn.up.sent = sent ∧
    conn.down.taken = 0

theorem Dialling.mono {s : ℕ} (h : Dialling s n a sockets sock w) (hrely : ConnectorRely s w w') :
    Dialling s n a sockets sock w' := by
  refine ⟨hrely.arrived.trans h.arrived, h.dialled.mono hrely, ?_⟩
  rcases h.sock with hsock | hsock
  · exact .inl hsock
  · exact .inr (hsock.mono hrely)

/-- The socket that is dialled is the one that has been made. -/
theorem Dialling.unreached {s k : ℕ} {conn : Conn} (h : Dialling s n a sockets sock w)
    (hfd : sock = k) (hk : w.conns[k]? = some conn) : conn.source = s := by
  rcases h.sock with hfailed | ⟨k', conn', hsock, hk', hsource, -⟩
  · rw [hfailed] at hfd
    exact absurd hfd (by omega)
  · obtain rfl : k = k' := Int.ofNat.inj (hfd.symm.trans hsock)
    rw [hk] at hk'
    obtain rfl := Option.some.inj hk'
    exact hsource

theorem Greeting.mono {s : ℕ} (h : Greeting s n a sockets sock sent w)
    (hrely : ConnectorRely s w w') : Greeting s n a sockets sock sent w' := by
  obtain ⟨k, conn, hsock, hlinked, hsent, htaken⟩ := h.sock
  obtain ⟨conn', hlinked', hfrom⟩ := hlinked.connector hrely
  exact ⟨hrely.arrived.trans h.arrived, h.dialled.mono hrely, k, conn', hsock, hlinked',
    hfrom.upSent.trans hsent, hfrom.downTaken.trans htaken⟩

theorem Dialled.congr {s : ℕ} (h : Dialled s n sockets w) (hconns : w'.conns = w.conns) :
    Dialled s n sockets w' := by
  refine ⟨h.length, fun c hc => ?_, fun c k conn hlinked => ?_⟩
  · obtain ⟨k, conn, hsock, hlinked⟩ := h.link c hc
    exact ⟨k, conn, hsock, hconns ▸ hlinked.get, hlinked.source, hlinked.target⟩
  · exact h.only c k conn ⟨hconns ▸ hlinked.get, hlinked.source, hlinked.target⟩

theorem Answered.congr {s : ℕ} (h : Answered s w) (hconns : w'.conns = w.conns) :
    Answered s w' := by
  obtain ⟨k, conn, hlinked, hsent⟩ := h
  exact ⟨k, conn, ⟨hconns ▸ hlinked.get, hlinked.source, hlinked.target⟩, hsent⟩

theorem Dialled.newConn {s : ℕ} (h : Dialled s n sockets w) :
    Dialled s n sockets { w with conns := w.conns ++ [Conn.new s] } := by
  refine ⟨h.length, fun c hc => ?_, fun c k conn hlinked => ?_⟩
  · obtain ⟨k, conn, hsock, hlinked⟩ := h.link c hc
    exact ⟨k, conn, hsock,
      ⟨(List.prefix_append _ _).getElem?_eq_some hlinked.get, hlinked.source, hlinked.target⟩⟩
  · have hget := hlinked.get
    simp only [List.getElem?_append] at hget
    split at hget
    · exact h.only c k conn ⟨hget, hlinked.source, hlinked.target⟩
    · have hnew := List.mem_singleton.1 (List.mem_of_getElem? hget)
      have htarget := hlinked.target
      rw [hnew] at htarget
      exact absurd htarget (by simp [Conn.new])

theorem Dialled.mapConn {s k : ℕ} {conn : Conn} (h : Dialled s n sockets w)
    (hk : w.conns[k]? = some conn) {f : Conn → Conn} (hsame : conn.SameEnds (f conn)) :
    Dialled s n sockets (w.mapConn k f) := by
  refine ⟨h.length, fun c hc => ?_, fun c k' conn' hlinked => ?_⟩
  · obtain ⟨k', conn', hsock, hlinked⟩ := h.link c hc
    obtain ⟨conn'', hlinked'⟩ := hlinked.forward hk hsame
    exact ⟨k', conn'', hsock, hlinked'⟩
  · obtain ⟨old, hlinked'⟩ := hlinked.back hk hsame
    exact h.only c k' old hlinked'

theorem Dialled.reach {s k : ℕ} {conn : Conn} (h : Dialled s n sockets w)
    (hk : w.conns[k]? = some conn) (hs : conn.source = s) (hnone : conn.target = none)
    (server : Bytes) (port : ℕ) {backlog : ℕ → Channel ℕ} :
    Dialled s (n + 1) (sockets ++ [(k : ℤ)])
      { w.mapConn k (fun conn => conn.reach server port n) with backlog := backlog } := by
  refine ⟨by rw [List.length_append, h.length]; rfl, fun c hc => ?_, fun c k' conn' hlinked => ?_⟩
  · rcases Nat.lt_succ_iff_lt_or_eq.1 hc with hlt | rfl
    · obtain ⟨k', conn', hsock, hlinked⟩ := h.link c hlt
      have hkk : k ≠ k' := by
        rintro rfl
        have hget := hlinked.get
        rw [hk] at hget
        obtain rfl := Option.some.inj hget
        exact absurd (hnone.symm.trans hlinked.target) (by simp)
      refine ⟨k', conn', ?_, (World.mapConn_of_ne hkk).trans hlinked.get, hlinked.source,
        hlinked.target⟩
      exact (List.prefix_append _ _).getElem?_eq_some hsock
    · refine ⟨k, conn.reach server port c, ?_, World.mapConn_self hk, hs, rfl⟩
      rw [← h.length, List.getElem?_concat_length]
  · rcases World.mapConn_cases hk hlinked.get with ⟨rfl, rfl⟩ | ⟨-, hold⟩
    · have htarget : n = c := Option.some.inj hlinked.target
      omega
    · exact (h.only c k' conn' ⟨hold, hlinked.source, hlinked.target⟩).trans (Nat.lt_succ_self n)

end Dial

/-- The operations of a connector do not undo an answer. -/
theorem Answered.perform {s : ℕ} {w w' : World} {o : ConnectOp} {r : o.Resp} (h : Answered s w)
    (hperform : performConnector X s o w r w') : Answered s w' := by
  obtain ⟨k, conn, hlinked, hsent⟩ := h
  -- a change of a connection that keeps its ends and what has been answered on it
  have hmap : ∀ (k' : ℕ) (f : Conn → Conn), conn.SameEnds (f conn) →
      (f conn).down.sent = conn.down.sent → Answered s (w.mapConn k' f) := by
    intro k' f hsame hdown
    by_cases hkk : k' = k
    · subst hkk
      exact ⟨k', f conn, ⟨World.mapConn_self hlinked.get, hsame.source.trans hlinked.source,
        hsame.target.trans hlinked.target⟩, hdown ▸ hsent⟩
    · exact ⟨k, conn, ⟨(World.mapConn_of_ne hkk).trans hlinked.get, hlinked.source,
        hlinked.target⟩, hsent⟩
  cases o with
  | socket =>
      rcases hperform with ⟨-, rfl⟩ | ⟨-, rfl⟩
      · exact ⟨k, conn, hlinked, hsent⟩
      · exact ⟨k, conn, ⟨(List.prefix_append _ _).getElem?_eq_some hlinked.get, hlinked.source,
          hlinked.target⟩, hsent⟩
  | lookup servername =>
      obtain ⟨-, rfl⟩ := hperform
      exact ⟨k, conn, hlinked, hsent⟩
  | connect fd server port =>
      rcases hperform with ⟨-, rfl⟩ | ⟨k', c, conn', -, hk', hnone, -, -, -, -, rfl⟩
      · exact ⟨k, conn, hlinked, hsent⟩
      · have hkk : k' ≠ k := by
          rintro rfl
          rw [hlinked.get] at hk'
          obtain rfl := Option.some.inj hk'
          exact absurd (hnone.symm.trans hlinked.target) (by simp)
        exact ⟨k, conn, ⟨(World.mapConn_of_ne hkk).trans hlinked.get, hlinked.source,
          hlinked.target⟩, hsent⟩
  | send fd data =>
      obtain ⟨k', -, rfl⟩ := hperform
      exact hmap k' _ ⟨rfl, rfl, rfl, rfl⟩ rfl
  | recv fd size =>
      obtain ⟨k', conn', -, -, -, -, rfl⟩ := hperform
      exact hmap k' _ ⟨rfl, rfl, rfl, rfl⟩ rfl
  | arrive =>
      obtain rfl := hperform
      exact ⟨k, conn, ⟨hlinked.get, hlinked.source, hlinked.target⟩, hsent⟩
  | leave =>
      obtain ⟨-, rfl⟩ := hperform
      exact ⟨k, conn, hlinked, hsent⟩
  | throw e => exact absurd hperform id

/-! ## Operations -/

/-- Nothing follows a throw. -/
theorem throw_triple {α : Type} {e : ConnectFault} {A : World → Prop} {Q : α → World → Prop}
    (hA : (outline X).Stable (.connector s) A) :
    (outline X).Triple (.connector s) A (Connector.throw e) Q := by
  unfold Connector.throw
  refine Triple.vis (R := fun _ _ => False) hA (fun _ _ _ => trivial) ?_ (fun r => r.elim)
  intro w r w' _ _ hperform
  exact absurd hperform id

/-- The names that have been published are taken apart and found, or the connector throws. -/
theorem resolve_triple {c : ℕ} (hc : c < X.N) {A : World → Prop}
    (hA : (outline X).Stable (.connector s) A) :
    (outline X).Triple (.connector s) A (Connector.resolve (X.hostPortName c))
      (fun r w => r = (X.hostname c, (X.listenPort c : ℤ)) ∧ A w) := by
  have hlookup : (outline X).Triple (.connector s) A (Connector.lookup (X.hostname c))
      (fun r w => (r = none ∨ r = some (X.hostname c)) ∧ A w) := by
    refine connector_op hA (fun _ _ _ => trivial) ?_
    rintro w r w' - hA' ⟨hr, rfl⟩
    exact ⟨hr, hA'⟩
  unfold Connector.resolve
  rw [X.parse_name hc]
  simp only [Connector.ofExcept, pure_eq, ret_bind]
  refine Triple.bind hlookup (fun r => Triple.pure ?_)
  rintro (rfl | rfl)
  · exact throw_triple hA
  · exact Triple.ret (fun _ _ h => ⟨rfl, h⟩)

theorem dialling_stable {n a : ℕ} {sock : ℤ} {sockets : List ℤ} :
    (outline X).Stable (.connector s) (Dialling s n a sockets sock) :=
  fun _ _ h hrely _ => h.mono hrely

theorem greeting_stable {n a : ℕ} {sock : ℤ} {sockets : List ℤ} {sent : Bytes} :
    (outline X).Stable (.connector s) (Greeting s n a sockets sock sent) :=
  fun _ _ h hrely _ => h.mono hrely

theorem socket_triple {n a : ℕ} {sockets : List ℤ} :
    (outline X).Triple (.connector s) (fun w => w.arrived s = a ∧ Dialled s n sockets w)
      Connector.socket (fun sock w => Dialling s n a sockets sock w) := by
  refine connector_op ?_ (fun _ _ _ => trivial) ?_
  · exact fun w w' h hrely _ => ⟨hrely.arrived.trans h.1, h.2.mono hrely⟩
  · rintro w r w' - ⟨harrived, hdialled⟩ (⟨rfl, rfl⟩ | ⟨rfl, rfl⟩)
    · exact ⟨harrived, hdialled, .inl rfl⟩
    · refine ⟨harrived, hdialled.newConn, .inr ⟨w.conns.length, Conn.new s, rfl, ?_, rfl, rfl⟩⟩
      exact List.getElem?_concat_length

/-- `::connect` with what acceptor `n` has published. For acceptor 0 the group must have been
    reached. -/
theorem dial_triple {n a : ℕ} (hn : n < X.N) {sock : ℤ} {sockets : List ℤ} {what : String} :
    (outline X).Triple (.connector s)
      (fun w => Dialling s n a sockets sock w ∧ (n = 0 → a = groupOf s ∧ Passed X a w))
      (Connector.dial sock (X.hostname n) (X.listenPort n) what)
      (fun _ w => Greeting s n a sockets sock [] w) := by
  have hstable : (outline X).Stable (.connector s)
      (fun w => Dialling s n a sockets sock w ∧ (n = 0 → a = groupOf s ∧ Passed X a w)) :=
    fun w w' h hrely _ => ⟨h.1.mono hrely, fun hzero => ⟨(h.2 hzero).1, (h.2 hzero).2.mono hrely⟩⟩
  have hconnect : (outline X).Triple (.connector s)
      (fun w => Dialling s n a sockets sock w ∧ (n = 0 → a = groupOf s ∧ Passed X a w))
      (Connector.connectSocket sock (X.hostname n) (X.listenPort n))
      (fun connected w => if connected then Greeting s n a sockets sock [] w
        else Dialling s n a sockets sock w) := by
    refine connector_op hstable ?_ ?_
    · rintro w hinv ⟨hdialling, hgroup⟩ k conn hfd hk
      refine ⟨hdialling.unreached hfd hk, fun c hc hhost hport => ?_⟩
      obtain rfl : c = n := X.reaches_one hc hn hhost hport
      refine ⟨fun k' conn' hlinked => ?_, fun hzero => ?_⟩
      · exact absurd (hdialling.dialled.only c k' conn' hlinked) (lt_irrefl c)
      · obtain ⟨rfl, hpassed⟩ := hgroup hzero
        exact ⟨hdialling.arrived.le, hpassed⟩
    · rintro w r w' hinv ⟨hdialling, -⟩ hperform
      rcases hperform with ⟨rfl, rfl⟩ | ⟨k, c, conn, hfd, hk, hnone, hc, hhost, hport, rfl, rfl⟩
      · exact hdialling
      · obtain rfl : c = n := X.reaches_one hc hn hhost hport
        have hsource := hdialling.unreached hfd hk
        obtain ⟨hup, hdown⟩ := (hinv.conn k conn hk).unreached hnone
        subst hfd
        refine ⟨hdialling.arrived, hdialling.dialled.reach hk hsource hnone _ _, k,
          conn.reach (X.hostname c) (X.listenPort c) c, rfl,
          ⟨World.mapConn_self hk, hsource, rfl⟩, ?_, ?_⟩
        · show conn.up.sent = []
          rw [hup]
          rfl
        · show conn.down.taken = 0
          rw [hdown]
          rfl
  unfold Connector.dial
  rw [X.htons_port hn]
  refine Triple.bind hconnect (fun connected => ?_)
  cases connected with
  | true => exact Triple.ret (fun _ _ h => h)
  | false => exact throw_triple dialling_stable

/-- More of what acceptor `n` is to be told is sent. -/
theorem greet_triple {n a : ℕ} {sock : ℤ} {sockets : List ℤ} {sent data : Bytes}
    (hdata : sent ++ data <+: X.hello s n) :
    (outline X).Triple (.connector s) (Greeting s n a sockets sock sent)
      (Connector.sendSocket sock data) (fun _ => Greeting s n a sockets sock (sent ++ data)) := by
  refine connector_op greeting_stable ?_ ?_
  · intro w _ h
    obtain ⟨k, conn, hsock, hlinked, hsent, -⟩ := h.sock
    exact ⟨k, n, conn, hsock, hlinked, by rw [hsent]; exact hdata⟩
  · rintro w r w' - h ⟨k', hfd', rfl⟩
    obtain ⟨k, conn, hsock, hlinked, hsent, htaken⟩ := h.sock
    obtain rfl : k = k' := Int.ofNat.inj (hsock.symm.trans hfd')
    refine ⟨h.arrived, h.dialled.mapConn hlinked.get ⟨rfl, rfl, rfl, rfl⟩, k, conn.sendUp data,
      hsock, hlinked.mapConn ⟨rfl, rfl, rfl, rfl⟩, ?_, htaken⟩
    show conn.up.sent ++ data = _
    rw [hsent]

/-! ## The second loop -/

/-- The acceptors from `n` on are dialled. -/
theorem dialAll_triple {a : ℕ} (m n : ℕ) (hn : 1 ≤ n) (hm : n + m ≤ X.N) (sockets : List ℤ) :
    (outline X).Triple (.connector s) (fun w => w.arrived s = a ∧ Dialled s n sockets w)
      (Connector.dialAll s ((List.range' n m).map X.hostPortName) sockets)
      (fun sockets' w => w.arrived s = a ∧ Dialled s (n + m) sockets' w) := by
  induction m generalizing n sockets with
  | zero => exact Triple.ret (fun _ _ h => h)
  | succ m ih =>
      have hhello : [] ++ intBytes (Int32.ofNat s) <+: X.hello s n := by
        rw [Setup.hello, if_neg (fun hboth => by omega), List.append_nil, List.nil_append]
      rw [List.range'_succ, List.map_cons]
      unfold Connector.dialAll
      refine Triple.bind socket_triple (fun sock => ?_)
      refine Triple.bind (resolve_triple (by omega) dialling_stable) (fun r => Triple.pure ?_)
      rintro rfl
      have hdial : (outline X).Triple (.connector s) (Dialling s n a sockets sock)
          (Connector.dial sock (X.hostname n) (X.listenPort n)
            ("Failed to connect to remote host " ++ (X.hostPortName n).text))
          (fun _ w => Greeting s n a sockets sock [] w) :=
        Triple.conseq (dial_triple (by omega)) (fun _ _ h => ⟨h, fun hzero => by omega⟩)
          (fun _ _ _ h => h)
      refine Triple.bind hdial (fun _ => ?_)
      refine Triple.bind (greet_triple hhello) (fun _ => ?_)
      have hrest := ih (n + 1) (by omega) (by omega) (sockets ++ [sock])
      refine Triple.conseq hrest (fun w _ h => ⟨h.arrived, h.dialled⟩) (fun sockets' w _ h => ?_)
      rw [Nat.add_right_comm n 1 m] at h
      exact h

/-! ## The first loop -/

theorem recv_triple {t a size : ℕ} {sock : ℤ} :
    (outline X).Triple (.connector s) (fun w => w.arrived s = a ∧ Receiving s t sock w)
      (Connector.recvSocket sock size)
      (fun r w => (r = ((X.answer 0).drop t).take size ∧ size ≤ ((X.answer 0).drop t).length) ∧
        w.arrived s = a ∧ Receiving s (t + size) sock w) := by
  refine connector_op ?_ ?_ ?_
  · exact fun w w' h hrely _ => ⟨hrely.arrived.trans h.1, h.2.mono hrely⟩
  · rintro w - ⟨-, -, k, conn, hsock, hlinked, -, -⟩
    exact ⟨k, 0, conn, hsock, hlinked⟩
  · rintro w r w' hinv ⟨harrived, hdialled, k, conn, hsock, hlinked, htaken, hle⟩
      ⟨k', conn', hfd', hk', hsize, rfl, rfl⟩
    obtain rfl : k = k' := Int.ofNat.inj (hsock.symm.trans hfd')
    rw [hlinked.get] at hk'
    obtain rfl := Option.some.inj hk'
    subst htaken
    have hanswer := (hinv.conn k conn hlinked.get).down 0 hlinked.target
    exact ⟨Channel.take_pending hanswer hle hsize, harrived,
      hdialled.mapConn hlinked.get ⟨rfl, rfl, rfl, rfl⟩, k, conn.recvDown size, hsock,
      hlinked.mapConn ⟨rfl, rfl, rfl, rfl⟩, rfl, Channel.advance_taken_le hle hsize⟩

/-- The hosts that are received are those of the other acceptors. -/
theorem recvHosts_triple {a : ℕ} {sock : ℤ} :
    (outline X).Triple (.connector s) (fun w => w.arrived s = a ∧ Receiving s 0 sock w)
      ((recvHosts X.alloc).interp (Connector.onSocket sock))
      (fun hosts w => hosts = X.others ∧ w.arrived s = a ∧ Dialled s 1 [sock] w ∧
        Answered s w) := by
  have hanswer := X.answer_root
  have hfirst : ((X.answer 0).drop 0).take 8 = leBytes 8 (hostsBytes X.others).length := by
    rw [List.drop_zero, hanswer]
    exact List.take_left' (leBytes_length _ _)
  have hsecond : (X.answer 0).drop (0 + 8) = hostsBytes X.others := by
    rw [hanswer]
    exact List.drop_left' (leBytes_length _ _)
  have hlt := X.hostsBytes_lt
  have hsize : leValue (leBytes 8 (hostsBytes X.others).length) = (hostsBytes X.others).length :=
    leValue_leBytes_of_lt _ _ (by norm_num; omega)
  unfold recvHosts
  rw [Receive.recv_bind, interp_vis]
  refine Triple.bind recv_triple (fun r => Triple.pure ?_)
  rintro ⟨rfl, -⟩
  rw [hfirst, hsize, Receive.recv_bind, interp_vis]
  refine Triple.bind recv_triple (fun r => Triple.pure ?_)
  rintro ⟨rfl, -⟩
  rw [hsecond, List.take_length]
  cases hdecode : decodeHeader (readHosts X.alloc) (hostsBytes X.others) with
  | error e =>
      rw [Receive.ofExcept_error, Receive.throw, interp_vis]
      refine Triple.bind (throw_triple (Q := fun _ _ => False) ?_) (fun r => Empty.elim r)
      exact fun w w' h hrely _ => ⟨hrely.arrived.trans h.1, h.2.mono hrely⟩
  | ok hosts =>
      have hsame := decode_hosts_yields hdecode
      rw [decode_hosts X.hostsBytes_lt] at hsame
      refine Triple.ret (fun w _ h => ?_)
      obtain ⟨harrived, hdialled, k, conn, -, hlinked, -, hle⟩ := h
      refine ⟨(Except.ok.inj hsame).symm, harrived, hdialled, k, conn, hlinked, fun hnil => ?_⟩
      rw [hnil, List.length_nil] at hle
      omega

/-- A connector that has been answered is not queued at acceptor 0. -/
theorem Answered.not_queued {s : ℕ} {w : World} (h : Answered s w) (hinv : Inv X w) (k : ℕ)
    (conn : Conn) (hk : k ∈ w.queued 0) (hconn : w.conns[k]? = some conn) : conn.source ≠ s := by
  obtain ⟨k', conn', hlinked, hsent⟩ := h
  intro hs
  have htarget := hinv.target_of_queued hk hconn
  obtain rfl := hinv.unique k k' conn conn' 0 hconn hlinked.get (hs.trans hlinked.source.symm)
    htarget hlinked.target
  have hsame : conn = conn' := Option.some.inj (hconn.symm.trans hlinked.get)
  exact hsent (hsame ▸ (hinv.fresh 0 k conn hk hconn).2)

theorem arrive_triple {A B : World → Prop} (hA : (outline X).Stable (.connector s) A)
    (hready : ∀ w, Inv X w → A w → w.arrived s < groupOf s ∨ Answered s w)
    (hstep : ∀ w, A w →
      B { w with arrived := Function.update w.arrived s (w.arrived s + 1) }) :
    (outline X).Triple (.connector s) A Connector.arrive (fun _ => B) := by
  refine connector_op hA ?_ ?_
  · intro w hinv hA'
    rcases hready w hinv hA' with hbefore | hanswered
    · exact .inl hbefore
    · exact .inr (fun k conn hk hconn => hanswered.not_queued hinv k conn hk hconn)
  · rintro w r w' - hA' rfl
    exact hstep w hA'

theorem leave_triple {j : ℕ} {A : World → Prop} (hA : (outline X).Stable (.connector s) A)
    (harrived : ∀ w, A w → w.arrived s = j) :
    (outline X).Triple (.connector s) A Connector.leave (fun _ w => Passed X j w ∧ A w) := by
  refine connector_op hA (fun _ _ _ => trivial) ?_
  rintro w r w' - hA' ⟨hall, rfl⟩
  refine ⟨fun s' hs' => ?_, hA'⟩
  rw [← harrived w' hA']
  exact hall s' hs'

/-- Acceptor 0 is dialled, and told the rank and the number of connectors. -/
theorem dialRoot_triple {sock : ℤ} :
    (outline X).Triple (.connector s)
      (fun w => Dialling s 0 (groupOf s) [] sock w ∧ Passed X (groupOf s) w)
      (Connector.dialRoot s X.M sock (X.hostname 0) (X.listenPort 0))
      (fun _ w => w.arrived s = groupOf s ∧ Receiving s 0 sock w) := by
  have hend : ∀ sent w, Greeting s 0 (groupOf s) [] sock sent w →
      w.arrived s = groupOf s ∧ Receiving s 0 sock w := by
    intro sent w h
    obtain ⟨k, conn, hsock, hlinked, -, htaken⟩ := h.sock
    exact ⟨h.arrived, h.dialled, k, conn, hsock, hlinked, htaken, Nat.zero_le _⟩
  have hdial : (outline X).Triple (.connector s)
      (fun w => Dialling s 0 (groupOf s) [] sock w ∧ Passed X (groupOf s) w)
      (Connector.dial sock (X.hostname 0) (X.listenPort 0) "Failed to connect to remote rank 0")
      (fun _ w => Greeting s 0 (groupOf s) [] sock [] w) :=
    Triple.conseq (dial_triple X.one_le_N) (fun _ _ h => ⟨h.1, fun _ => ⟨rfl, h.2⟩⟩)
      (fun _ _ _ h => h)
  unfold Connector.dialRoot
  refine Triple.bind hdial (fun _ => ?_)
  by_cases hs : s.val = 0
  · have hrank : [] ++ intBytes (Int32.ofNat s) <+: X.hello s 0 := List.prefix_append _ _
    have hsize : [] ++ intBytes (Int32.ofNat s) ++ intBytes (Int32.ofNat X.M) <+: X.hello s 0 := by
      rw [Setup.hello, if_pos ⟨hs, rfl⟩]
      exact List.prefix_refl _
    refine Triple.bind (greet_triple hrank) (fun _ => ?_)
    rw [if_pos hs]
    exact Triple.conseq (greet_triple hsize) (fun _ _ h => h) (fun _ w _ h => hend _ w h)
  · have hrank : [] ++ intBytes (Int32.ofNat s) <+: X.hello s 0 := List.prefix_append _ _
    refine Triple.bind (greet_triple hrank) (fun _ => ?_)
    rw [if_neg hs]
    exact Triple.ret (fun w _ h => hend _ w h)

/-! ## The code -/

theorem groupOf_lt : groupOf s < Connector.numGroups X.M :=
  Connector.div_lt_numGroups s.isLt

theorem groups_done {j : ℕ} (h : [] = Connector.groupsFrom X.M j) (hj : j ≤ Connector.numGroups X.M) :
    j = Connector.numGroups X.M := by
  by_contra hne
  rw [Connector.groupsFrom_of_lt (by omega)] at h
  exact absurd h (by simp)

theorem groups_next {i j : ℕ} {is : List ℕ} (h : i :: is = Connector.groupsFrom X.M j) :
    j < Connector.numGroups X.M ∧ i = socketMaxSimultaneousConnections * j ∧
      is = Connector.groupsFrom X.M (j + 1) := by
  by_cases hj : j < Connector.numGroups X.M
  · rw [Connector.groupsFrom_of_lt hj] at h
    obtain ⟨hi, his⟩ := List.cons.inj h
    exact ⟨hj, hi, his⟩
  · rw [Connector.groupsFrom_of_le (by omega)] at h
    exact absurd h (by simp)

/-- Not being in the group at hand, a connector goes to the barrier behind it. -/
theorem RootAt.arrive {s j : ℕ} {sock : ℤ} {server : Bytes} {port : ℤ} {hosts : List StdString}
    {w : World} (h : RootAt X s j sock server port hosts w) (hj : j < Connector.numGroups X.M)
    (hne : groupOf s ≠ j) :
    RootAt X s (j + 1) sock server port hosts
      { w with arrived := Function.update w.arrived s (w.arrived s + 1) } := by
  refine ⟨hj, ?_, h.server, h.port, ?_⟩
  · show Function.update w.arrived s (w.arrived s + 1) s = j + 1
    rw [Function.update_self, h.arrived]
  · rcases h.state with ⟨hle, hsock, hdialled⟩ | ⟨hlt, hhosts, hdialled, hanswered⟩
    · exact .inl ⟨by omega, hsock, hdialled.congr rfl⟩
    · exact .inr ⟨by omega, hhosts, hdialled.congr rfl, hanswered.congr rfl⟩

theorem connect_start :
    (outline X).Triple (.connector s) (connectorPost X s .start)
      (Connector.connect X.alloc s X.M (X.hostPortName 0) .start) (connectorPost X s) := by
  refine Triple.bind socket_triple (fun sock => ?_)
  by_cases hsock : sock = -1
  · rw [if_pos hsock]
    exact throw_triple dialling_stable
  · rw [if_neg hsock]
    refine Triple.bind (resolve_triple X.one_le_N dialling_stable) (fun r => Triple.pure ?_)
    rintro rfl
    refine Triple.ret (fun w _ h => ?_)
    exact ⟨0, rfl, fun _ _ => Nat.zero_le _, Nat.zero_le _, h.arrived, rfl, rfl,
      .inl ⟨Nat.zero_le _, h.sock.resolve_left hsock, h.dialled⟩⟩

theorem connect_rootGroup (is : List ℕ) (sock : ℤ) (server : Bytes) (port : ℤ)
    (remoteHosts : List StdString) :
    (outline X).Triple (.connector s)
      (connectorPost X s (.rootGroup is sock server port remoteHosts))
      (Connector.connect X.alloc s X.M (X.hostPortName 0)
        (.rootGroup is sock server port remoteHosts)) (connectorPost X s) := by
  refine Triple.exists (fun j => Triple.pure ?_)
  intro his
  cases is with
  | nil =>
      refine Triple.ret (fun w _ h => ?_)
      have hj := groups_done his h.2.le
      have hlt := groupOf_lt (s := s)
      rcases h.2.state with ⟨hle, -⟩ | ⟨-, hhosts, hdialled, hanswered⟩
      · omega
      · exact ⟨0, rfl, Nat.zero_le _, h.2.arrived.trans hj, hhosts, hanswered,
          .inl ⟨Nat.zero_le _, hdialled⟩⟩
  | cons i is =>
      obtain ⟨hj, rfl, rfl⟩ := groups_next his
      by_cases hin : Connector.InGroup s (socketMaxSimultaneousConnections * j)
      · -- the group of this connector dials acceptor 0
        obtain rfl : groupOf s = j := Connector.inGroup_iff.1 hin
        simp only [Connector.connect]
        rw [if_pos hin]
        have hpre : ∀ w, Passed X (groupOf s) w ∧
            RootAt X s (groupOf s) sock server port remoteHosts w →
            (server = X.hostname 0 ∧ port = X.listenPort 0) ∧
              Dialling s 0 (groupOf s) [] sock w ∧ Passed X (groupOf s) w := by
          rintro w ⟨hpassed, hat⟩
          rcases hat.state with ⟨-, hsock, hdialled⟩ | ⟨hlt, -⟩
          · exact ⟨⟨hat.server, hat.port⟩, ⟨hat.arrived, hdialled, .inr hsock⟩, hpassed⟩
          · omega
        refine Triple.conseq (Triple.pure ?_) (fun w _ h => hpre w h) (fun _ _ _ h => h)
        rintro ⟨rfl, rfl⟩
        refine Triple.bind dialRoot_triple (fun _ => Triple.ret (fun w _ h => ?_))
        exact ⟨rfl, h.1, rfl, rfl, h.2⟩
      · -- another group does, and this connector goes to the barrier
        have hne : groupOf s ≠ j := fun h => hin (Connector.inGroup_iff.2 h)
        simp only [Connector.connect]
        rw [if_neg hin]
        refine Triple.bind (arrive_triple (B := RootAt X s (j + 1) sock server port remoteHosts)
          ?_ ?_ ?_) (fun _ => Triple.ret (fun w _ h => ⟨j + 1, rfl, h⟩))
        · exact fun w w' h hrely _ => ⟨h.1.mono hrely, h.2.mono hrely⟩
        · rintro w - ⟨-, hat⟩
          rcases hat.state with ⟨hle, -⟩ | ⟨-, -, -, hanswered⟩
          · left
            rw [hat.arrived]
            omega
          · exact .inr hanswered
        · exact fun w h => h.2.arrive hj hne

theorem connect_asking (is : List ℕ) (sock : ℤ) (server : Bytes) (port : ℤ) :
    (outline X).Triple (.connector s) (connectorPost X s (.asking is sock server port))
      (Connector.connect X.alloc s X.M (X.hostPortName 0) (.asking is sock server port))
      (connectorPost X s) := by
  have hpre : ∀ w, connectorPost X s (.asking is sock server port) w →
      (is = Connector.groupsFrom X.M (groupOf s + 1) ∧ server = X.hostname 0 ∧
        port = X.listenPort 0) ∧ w.arrived s = groupOf s ∧ Receiving s 0 sock w := by
    rintro w ⟨his, harrived, hserver, hport, hreceiving⟩
    exact ⟨⟨his, hserver, hport⟩, harrived, hreceiving⟩
  refine Triple.conseq (Triple.pure ?_) (fun w _ h => hpre w h) (fun _ _ _ h => h)
  rintro ⟨rfl, rfl, rfl⟩
  refine Triple.bind recvHosts_triple (fun hosts => Triple.pure ?_)
  rintro rfl
  refine Triple.bind (arrive_triple (B := RootAt X s (groupOf s + 1) sock (X.hostname 0)
    (X.listenPort 0) X.others) ?_ ?_ ?_) (fun _ => Triple.ret (fun w _ h => ⟨_, rfl, h⟩))
  · exact fun w w' h hrely _ =>
      ⟨hrely.arrived.trans h.1, h.2.1.mono hrely, h.2.2.mono hrely⟩
  · exact fun w _ h => .inr h.2.2
  · rintro w ⟨harrived, hdialled, hanswered⟩
    refine ⟨groupOf_lt, ?_, rfl, rfl,
      .inr ⟨Nat.lt_succ_self _, rfl, hdialled.congr rfl, hanswered.congr rfl⟩⟩
    show Function.update w.arrived s (w.arrived s + 1) s = _
    rw [Function.update_self, harrived]

theorem connect_group (is : List ℕ) (sockets : List ℤ) (remoteHosts : List StdString) :
    (outline X).Triple (.connector s) (connectorPost X s (.group is sockets remoteHosts))
      (Connector.connect X.alloc s X.M (X.hostPortName 0) (.group is sockets remoteHosts))
      (connectorPost X s) := by
  refine Triple.exists (fun j => Triple.pure ?_)
  intro his
  cases is with
  | nil =>
      refine Triple.ret (fun w _ h => ?_)
      have hj := groups_done his h.le
      have hlt := groupOf_lt (s := s)
      rcases h.state with ⟨hle, -⟩ | ⟨-, hdialled⟩
      · omega
      · exact hdialled
  | cons i is =>
      obtain ⟨hj, rfl, rfl⟩ := groups_next his
      -- after the group, the hosts are dialled or still to be
      have hbarrier : ∀ sockets', (outline X).Triple (.connector s)
          (fun w => Answered s w ∧ remoteHosts = X.others ∧
            w.arrived s = Connector.numGroups X.M + j ∧
            ((j + 1 ≤ groupOf s ∧ Dialled s 1 sockets' w) ∨
              (groupOf s < j + 1 ∧ Dialled s X.N sockets' w)))
          (Connector.arrive >>= fun _ => pure (Connector.Label.barrier
            (Connector.groupsFrom X.M (j + 1)) sockets' remoteHosts)) (connectorPost X s) := by
        intro sockets'
        refine Triple.bind (arrive_triple (B := GroupAt X s (j + 1) sockets' remoteHosts) ?_ ?_ ?_)
          (fun _ => Triple.ret (fun w _ h => ⟨j + 1, rfl, h⟩))
        · rintro w w' ⟨hanswered, hhosts, harrived, hstate⟩ hrely -
          refine ⟨hanswered.mono hrely, hhosts, hrely.arrived.trans harrived, ?_⟩
          rcases hstate with ⟨hle, hdialled⟩ | ⟨hlt, hdialled⟩
          · exact .inl ⟨hle, hdialled.mono hrely⟩
          · exact .inr ⟨hlt, hdialled.mono hrely⟩
        · exact fun w _ h => .inr h.1
        · rintro w ⟨hanswered, hhosts, harrived, hstate⟩
          refine ⟨hj, ?_, hhosts, hanswered.congr rfl, ?_⟩
          · show Function.update w.arrived s (w.arrived s + 1) s = _
            rw [Function.update_self, harrived, Nat.add_assoc]
          · rcases hstate with ⟨hle, hdialled⟩ | ⟨hlt, hdialled⟩
            · exact .inl ⟨hle, hdialled.congr rfl⟩
            · exact .inr ⟨hlt, hdialled.congr rfl⟩
      simp only [Connector.connect]
      by_cases hin : Connector.InGroup s (socketMaxSimultaneousConnections * j)
      · obtain rfl : groupOf s = j := Connector.inGroup_iff.1 hin
        rw [if_pos hin]
        have hpre : ∀ w, GroupAt X s (groupOf s) sockets remoteHosts w →
            remoteHosts = X.others ∧ Answered s w ∧
              w.arrived s = Connector.numGroups X.M + groupOf s ∧ Dialled s 1 sockets w := by
          intro w h
          rcases h.state with ⟨-, hdialled⟩ | ⟨hlt, -⟩
          · exact ⟨h.remoteHosts, h.answered, h.arrived, hdialled⟩
          · omega
        refine Triple.conseq (Triple.pure ?_) (fun w _ h => hpre w h) (fun _ _ _ h => h)
        rintro rfl
        have hall := Triple.frame (F := Answered s) (fun _ _ h hrely _ => h.mono hrely)
          (fun o w r w' h hperform => h.perform hperform)
          (dialAll_triple (s := s) (a := Connector.numGroups X.M + groupOf s) (X.N - 1) 1 (le_refl 1)
            (by have hN := X.one_le_N; omega) sockets)
        refine Triple.bind hall (fun sockets' => ?_)
        refine Triple.conseq (hbarrier sockets') ?_ (fun _ _ _ h => h)
        rintro w - ⟨hanswered, harrived, hdialled⟩
        rw [Nat.add_sub_cancel' X.one_le_N] at hdialled
        exact ⟨hanswered, rfl, harrived, .inr ⟨Nat.lt_succ_self _, hdialled⟩⟩
      · have hne : groupOf s ≠ j := fun h => hin (Connector.inGroup_iff.2 h)
        rw [if_neg hin]
        refine Triple.conseq (hbarrier sockets) ?_ (fun _ _ _ h => h)
        intro w _ h
        refine ⟨h.answered, h.remoteHosts, h.arrived, ?_⟩
        rcases h.state with ⟨hle, hdialled⟩ | ⟨hlt, hdialled⟩
        · exact .inl ⟨by omega, hdialled⟩
        · exact .inr ⟨by omega, hdialled⟩

/-- What a connector knows holds along its code. -/
theorem connect_triple (l : Connector.Label) :
    (outline X).Triple (.connector s) (connectorPost X s l)
      (Connector.connect X.alloc s X.M (X.hostPortName 0) l) (connectorPost X s) := by
  cases l with
  | start => exact connect_start
  | rootGroup is sock server port remoteHosts =>
      exact connect_rootGroup is sock server port remoteHosts
  | asking is sock server port => exact connect_asking is sock server port
  | rootBarrier is sock server port remoteHosts =>
      refine Triple.exists (fun j => Triple.pure ?_)
      rintro rfl
      refine Triple.bind (leave_triple (j := j) ?_ (fun w h => h.arrived))
        (fun _ => Triple.ret (fun w _ h => ⟨j, rfl, h⟩))
      exact fun w w' h hrely _ => h.mono hrely
  | group is sockets remoteHosts => exact connect_group is sockets remoteHosts
  | barrier is sockets remoteHosts =>
      refine Triple.exists (fun j => Triple.pure ?_)
      rintro rfl
      refine Triple.bind (leave_triple (j := Connector.numGroups X.M + j) ?_ (fun w h => h.arrived))
        (fun _ => Triple.ret (fun w _ h => ⟨j, rfl, h.2⟩))
      exact fun w w' h hrely _ => h.mono hrely
  | connected sockets => exact Triple.ret (fun _ _ h => h)

end Wiring

end LibIS
