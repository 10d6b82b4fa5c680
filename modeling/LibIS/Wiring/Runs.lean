import LibIS.Wiring.Acceptors
import LibIS.Wiring.Connectors

set_option autoImplicit false

/-! # Wiring two groups of ranks: runs

The proof outline holds along every run (`holds_of_reachable`). The rest of the file is about what
can happen: the code of each label, run where nothing fails and nobody interferes. -/

open ByteCodec Prog ThreadSystem

namespace LibIS

namespace Wiring

variable {X : Setup}

/-! ## Every run -/

theorem init_inv (X : Setup) : Inv X World.init where
  conn _ _ h := absurd h (by simp [World.init])
  unique _ _ _ _ _ h := absurd h (by simp [World.init])
  queue _ _ h := absurd h (by simp [World.init, Channel.empty])
  made _ _ _ h := absurd h (by simp [World.init])
  nodup _ := List.nodup_nil
  fresh _ _ _ h := absurd h (by simp [World.init, World.queued, Channel.pending, Channel.empty])
  mail _ _ := List.nil_prefix
  cast := List.nil_prefix
  waits _ _ h := absurd h (by simp [World.init, World.queued, Channel.pending, Channel.empty])
  passed _ _ h := absurd h (by simp [World.init])

theorem outline_valid (X : Setup) : (outline X).Valid World.init (startLabels X) where
  inv_start := init_inv X
  post_start t := by
    cases t with
    | connector s =>
        exact ⟨rfl, rfl, fun c hc => absurd hc (by omega),
          fun c k conn hlinked => absurd hlinked.get (by simp [World.init])⟩
    | acceptor c =>
        exact ⟨⟨rfl, rfl, fun p hp => absurd hp (by simp)⟩, fun _ => ⟨rfl, fun _ => rfl⟩,
          fun _ => ⟨rfl, rfl⟩⟩
  post_stable t := by
    cases t with
    | connector s => exact fun _ _ _ h hrely _ => connectorPost_mono h hrely
    | acceptor c => exact fun _ _ _ h hrely _ => acceptorPost_mono h hrely
  code_safe t := by
    cases t with
    | connector s => exact connect_triple
    | acceptor c => exact accept_triple

/-- The configurations of the runs. -/
def Reached (X : Setup) : (system X).Config → Prop :=
  (system X).Reachable ((system X).start World.init (startLabels X))

theorem holds_of_reachable {cfg : (system X).Config} (h : Reached X cfg) : (outline X).Holds cfg :=
  Proof.sound (outline_valid X) h

/-! ## What a connector can do -/

section Connectors

variable {s : Fin X.M} {w : World} {k : ℕ} {conn : Conn}

theorem runs_resolve {c : ℕ} (hc : c < X.N) (w : World) :
    (system X).Runs (.connector s) (Connector.resolve (X.hostPortName c)) w
      (X.hostname c, (X.listenPort c : ℤ)) w := by
  have hlookup : (system X).Runs (.connector s) (Connector.lookup (X.hostname c)) w
      (some (X.hostname c)) w := Runs.op ⟨.inr rfl, rfl⟩
  unfold Connector.resolve
  rw [X.parse_name hc]
  simp only [Connector.ofExcept, pure_eq, ret_bind]
  exact Runs.bind hlookup (.ret _ _)

/-- The world when connector `s` has made a socket. -/
def World.socket (w : World) (s : ℕ) : World :=
  { w with conns := w.conns ++ [Conn.new s] }

theorem runs_socket (w : World) :
    (system X).Runs (.connector s) Connector.socket w (w.conns.length : ℤ) (w.socket s) :=
  Runs.op (.inr ⟨rfl, rfl⟩)

/-- The world when connection `k` has reached acceptor `c`. -/
def World.reach (X : Setup) (w : World) (k c : ℕ) : World :=
  { w.mapConn k (fun conn => conn.reach (X.hostname c) (X.listenPort c) c) with
    backlog := Function.update w.backlog c ((w.backlog c).push k) }

theorem runs_dial {c : ℕ} (hc : c < X.N) (hk : w.conns[k]? = some conn) (hnone : conn.target = none)
    (what : String) :
    (system X).Runs (.connector s) (Connector.dial k (X.hostname c) (X.listenPort c) what) w ()
      (w.reach X k c) := by
  have hconnect : (system X).Runs (.connector s)
      (Connector.connectSocket k (X.hostname c) (X.listenPort c)) w true (w.reach X k c) :=
    Runs.op (.inr ⟨k, c, conn, rfl, hk, hnone, hc, rfl, rfl, rfl, rfl⟩)
  unfold Connector.dial
  rw [X.htons_port hc]
  exact Runs.bind hconnect (.ret _ _)

theorem runs_send (w : World) (k : ℕ) (data : Bytes) :
    (system X).Runs (.connector s) (Connector.sendSocket k data) w ()
      (w.mapConn k (Conn.sendUp data)) :=
  Runs.op ⟨k, rfl, rfl⟩

theorem runs_dialAll (m n : ℕ) (hn : 1 ≤ n) (hm : n + m ≤ X.N) (sockets : List ℤ) (w : World) :
    ∃ sockets' w', (system X).Runs (.connector s)
        (Connector.dialAll s ((List.range' n m).map X.hostPortName) sockets) w sockets' w' ∧
      w'.backlog 0 = w.backlog 0 := by
  induction m generalizing n sockets w with
  | zero => exact ⟨sockets, w, .ret _ _, rfl⟩
  | succ m ih =>
      have hnew : (w.socket s).conns[w.conns.length]? = some (Conn.new s) :=
        List.getElem?_concat_length
      obtain ⟨sockets', w', hrest, hbacklog⟩ := ih (n + 1) (by omega) (by omega)
        (sockets ++ [(w.conns.length : ℤ)])
        (((w.socket s).reach X w.conns.length n).mapConn w.conns.length
          (Conn.sendUp (intBytes (Int32.ofNat s))))
      refine ⟨sockets', w', ?_, ?_⟩
      · rw [List.range'_succ, List.map_cons]
        unfold Connector.dialAll
        refine Runs.bind (runs_socket w) ?_
        refine Runs.bind (runs_resolve (by omega) _) ?_
        refine Runs.bind (runs_dial (by omega) hnew rfl _) ?_
        exact Runs.bind (runs_send _ _ _) hrest
      · rw [hbacklog]
        exact Function.update_of_ne (by omega) _ _

/-- A connection to acceptor 0 on which connector `s` has sent all it has to, and nothing has been
    received. -/
def Greeted (X : Setup) (w : World) (s k : ℕ) : Prop :=
  ∃ conn : Conn, Linked w s 0 k conn ∧ conn.up = ⟨X.hello s 0, 0⟩ ∧ conn.down = .empty

/-- Acceptor 0 is dialled, and told all it has to be. -/
theorem runs_dialRoot (hk : w.conns[k]? = some conn) (hs : conn.source = s)
    (hnone : conn.target = none) (hup : conn.up = .empty) (hdown : conn.down = .empty) :
    ∃ w', (system X).Runs (.connector s)
        (Connector.dialRoot s X.M k (X.hostname 0) (X.listenPort 0)) w () w' ∧
      w'.backlog 0 = (w.backlog 0).push k ∧ Greeted X w' s k := by
  have hreach : (w.reach X k 0).conns[k]? =
      some (conn.reach (X.hostname 0) (X.listenPort 0) 0) := World.mapConn_self hk
  have hrank : ((w.reach X k 0).mapConn k (Conn.sendUp (intBytes (Int32.ofNat s)))).conns[k]? =
      some ((conn.reach (X.hostname 0) (X.listenPort 0) 0).sendUp (intBytes (Int32.ofNat s))) :=
    World.mapConn_self hreach
  have hbacklog : (w.reach X k 0).backlog 0 = (w.backlog 0).push k := by
    show Function.update w.backlog 0 ((w.backlog 0).push k) 0 = _
    rw [Function.update_self]
  unfold Connector.dialRoot
  by_cases hzero : s.val = 0
  · refine ⟨((w.reach X k 0).mapConn k (Conn.sendUp (intBytes (Int32.ofNat s)))).mapConn k
      (Conn.sendUp (intBytes (Int32.ofNat X.M))), ?_, hbacklog, ?_⟩
    · refine Runs.bind (runs_dial X.one_le_N hk hnone _) ?_
      refine Runs.bind (runs_send _ _ _) ?_
      rw [if_pos hzero]
      exact runs_send _ _ _
    · refine ⟨_, ⟨World.mapConn_self hrank, hs, rfl⟩, ?_, hdown⟩
      show (conn.up.pushAll _).pushAll _ = _
      rw [hup, Setup.hello, if_pos ⟨hzero, rfl⟩]
      rfl
  · refine ⟨(w.reach X k 0).mapConn k (Conn.sendUp (intBytes (Int32.ofNat s))), ?_,
      hbacklog, ?_⟩
    · refine Runs.bind (runs_dial X.one_le_N hk hnone _) ?_
      refine Runs.bind (runs_send _ _ _) ?_
      rw [if_neg hzero]
      exact .ret _ _
    · refine ⟨_, ⟨hrank, hs, rfl⟩, ?_, hdown⟩
      show conn.up.pushAll _ = _
      rw [hup, Setup.hello, if_neg (fun hboth => hzero hboth.1), List.append_nil]
      rfl

/-- The hosts are received, when all that acceptor 0 answers has been sent. -/
theorem runs_recvHosts (halloc : X.alloc = unlimited) (hk : w.conns[k]? = some conn)
    (hdown : conn.down = ⟨X.answer 0, 0⟩) :
    ∃ w', (system X).Runs (.connector s) ((recvHosts X.alloc).interp (Connector.onSocket k)) w
        X.others w' ∧ w'.backlog = w.backlog := by
  have hanswer := X.answer_root
  have hlt := X.hostsBytes_lt
  have hsize : leValue (leBytes 8 (hostsBytes X.others).length) = (hostsBytes X.others).length :=
    leValue_leBytes_of_lt _ _ (by norm_num; omega)
  have hpending : conn.down.pending = X.answer 0 := by rw [hdown]; rfl
  have hfirst : conn.down.pending.take 8 = leBytes 8 (hostsBytes X.others).length := by
    rw [hpending, hanswer]
    exact List.take_left' (leBytes_length _ _)
  have hk₁ : (w.mapConn k (Conn.recvDown 8)).conns[k]? = some (conn.recvDown 8) :=
    World.mapConn_self hk
  have hpending₁ : (conn.recvDown 8).down.pending = hostsBytes X.others := by
    show (conn.down.sent.drop (conn.down.taken + 8)) = _
    rw [hdown]
    show (X.answer 0).drop (0 + 8) = _
    rw [hanswer]
    exact List.drop_left' (leBytes_length _ _)
  refine ⟨(w.mapConn k (Conn.recvDown 8)).mapConn k
    (Conn.recvDown (hostsBytes X.others).length), ?_, rfl⟩
  unfold recvHosts
  rw [Receive.recv_bind, interp_vis]
  refine Runs.bind (Runs.op ⟨k, conn, rfl, hk, ?_, rfl, rfl⟩) ?_
  · rw [hpending, hanswer, List.length_append, leBytes_length]
    omega
  rw [hfirst, hsize, Receive.recv_bind, interp_vis]
  refine Runs.bind (Runs.op ⟨k, conn.recvDown 8, rfl, hk₁, ?_, rfl, rfl⟩) ?_
  · rw [hpending₁]
  rw [hpending₁, List.take_length, halloc, decode_hosts X.hostsBytes_lt]
  exact .ret _ _

end Connectors

/-! ## What an acceptor can do -/

section Acceptors

variable {c : Fin X.N} {w : World} {k : ℕ} {conn : Conn}

theorem runs_recvInt (hk : w.conns[k]? = some conn) {n old : Int32} {rest : Bytes}
    (hn : conn.up.pending = intBytes n ++ rest) :
    (system X).Runs (.acceptor c) (Acceptor.recvInt k old) w n (w.mapConn k (Conn.recvUp 4)) := by
  have hsize : 4 ≤ conn.up.pending.length := by
    rw [hn, List.length_append, intBytes_length]
    omega
  have htake : conn.up.pending.take 4 = intBytes n := by
    rw [hn]
    exact List.take_left' (intBytes_length _)
  have hnone : (intBytes old).drop (intBytes n).length = [] := by
    rw [List.drop_eq_nil_iff, intBytes_length, intBytes_length]
  unfold Acceptor.recvInt
  refine Runs.bind (Runs.op ⟨k, conn, rfl, hk, hsize, rfl, rfl⟩) ?_
  rw [htake, hnone, List.append_nil, intOfBytes_intBytes]
  exact .ret _ _

theorem runs_bcast (hc : c.val = 0) (w : World) (buf : Bytes) :
    (system X).Runs (.acceptor c) (Acceptor.mpiBcast buf) w buf
      { w with cast := w.cast ++ [buf] } := by
  refine Runs.op ?_
  show if c.val = 0 then _ else _
  rw [if_pos hc]
  exact ⟨rfl, rfl⟩

theorem runs_sendEach (ms : List Bytes) (hk : w.conns[k]? = some conn) :
    ∃ w', (system X).Runs (.acceptor c) (Acceptor.sendEach k ms) w () w' ∧
      w'.backlog = w.backlog ∧ w'.conns[k]? = some (conn.sendDown ms.flatten) := by
  induction ms generalizing w conn with
  | nil =>
      refine ⟨w, .ret _ _, rfl, ?_⟩
      rw [hk]
      show some conn = some { conn with down := conn.down.pushAll [] }
      rw [Channel.pushAll, List.append_nil]
  | cons m ms ih =>
      obtain ⟨w', hrest, hbacklog, hconn⟩ := ih (World.mapConn_self (f := Conn.sendDown m) hk)
      refine ⟨w', ?_, hbacklog, ?_⟩
      · unfold Acceptor.sendEach
        exact Runs.bind (Runs.op (r := ()) ⟨k, rfl, rfl⟩) hrest
      · rw [hconn, List.flatten_cons]
        show some { conn with down := (conn.down.pushAll m).pushAll ms.flatten } =
          some { conn with down := conn.down.pushAll (m ++ ms.flatten) }
        rw [Channel.pushAll, Channel.pushAll, Channel.pushAll, List.append_assoc]

/-- The world when acceptor `c` has accepted a connection. -/
def World.accept (w : World) (c : ℕ) : World :=
  { w with backlog := Function.update w.backlog c (w.backlog c).pop }

/-- Acceptor 0 serves the connection that is queued. -/
theorem runs_rootRound (hc : c.val = 0) {s : ℕ} (hqueue : w.queued 0 = [k])
    (hgreeted : Greeted X w s k) (hs : s < X.M) (st : Acceptor.Accepting) :
    ∃ st' w', (system X).Runs (.acceptor c) (Acceptor.rootRound X.messages st) w st' w' ∧
      w'.queued 0 = [] ∧
      ∃ conn : Conn, w'.conns[k]? = some conn ∧ conn.down = ⟨X.answer 0, 0⟩ := by
  obtain ⟨conn, hlinked, hup, hdown⟩ := hgreeted
  have hanswer : conn.down.pushAll X.messages.flatten = ⟨X.answer 0, 0⟩ := by
    rw [hdown]
    rfl
  obtain ⟨hnext, hrest⟩ := Channel.next_of_pending hqueue
  -- the connection is accepted, and its rank received
  have hget₁ : (w.accept c).conns[k]? = some conn := hlinked.get
  have haccept : (system X).Runs (.acceptor c) Acceptor.acceptSocket w (k : ℤ) (w.accept c) := by
    refine Runs.op ⟨k, ?_, rfl, rfl⟩
    rw [hc]
    exact hnext
  obtain ⟨later, hrank⟩ : ∃ later, conn.up.pending = intBytes (Int32.ofNat s) ++ later :=
    ⟨_, congrArg Channel.pending hup⟩
  have hget₂ := World.mapConn_self (f := Conn.recvUp 4) hget₁
  have hremote : (system X).Runs (.acceptor c) (Acceptor.acceptRemote st) w
      ((k : ℤ), Int32.ofNat s, st.connect (Int32.ofNat s) k)
      ((w.accept c).mapConn k (Conn.recvUp 4)) := by
    unfold Acceptor.acceptRemote
    exact Runs.bind haccept (Runs.bind (runs_recvInt hget₁ hrank) (.ret _ _))
  have hqueue' : (w.accept c).queued 0 = [] := by
    show (Function.update w.backlog c (w.backlog c).pop 0).pending = []
    rw [← hc, Function.update_self, hc]
    exact hrest
  unfold Acceptor.rootRound
  by_cases hzero : s = 0
  · subst hzero
    have hmore : (conn.recvUp 4).up.pending = intBytes (Int32.ofNat X.M) ++ [] := by
      show conn.up.sent.drop (conn.up.taken + 4) = _
      rw [hup, Setup.hello, if_pos ⟨rfl, rfl⟩, List.append_nil]
      exact List.drop_left' (intBytes_length _)
    have hget₃ := World.mapConn_self (f := Conn.recvUp 4) hget₂
    obtain ⟨w', hsend, hbacklog, hconn⟩ := runs_sendEach (c := c) X.messages
      (w := { ((w.accept c).mapConn k (Conn.recvUp 4)).mapConn k (Conn.recvUp 4) with
        cast := w.cast ++ [intBytes (Int32.ofNat X.M)] }) hget₃
    refine ⟨{ st.connect (Int32.ofNat 0) k with nexpected := Int32.ofNat X.M }, w', ?_, ?_, _, hconn,
      hanswer⟩
    · refine Runs.bind hremote ?_
      refine Runs.bind (runs_recvInt hget₂ hmore) ?_
      exact Runs.bind (runs_bcast hc _ _) (Runs.bind hsend (.ret _ _))
    · rw [World.queued, hbacklog]
      exact hqueue'
  · have hne : Int32.ofNat s ≠ 0 := fun h => hzero ((ofNat_eq_zero hs).1 h)
    obtain ⟨w', hsend, hbacklog, hconn⟩ := runs_sendEach (c := c) X.messages hget₂
    refine ⟨st.connect (Int32.ofNat s) k, w', ?_, ?_, _, hconn, hanswer⟩
    · refine Runs.bind hremote ?_
      show (system X).Runs (.acceptor c) (if Int32.ofNat s = 0 then _ else _) _ _ _
      rw [if_neg hne]
      exact Runs.bind hsend (.ret _ _)
    · rw [World.queued, hbacklog]
      exact hqueue'

/-- An acceptor other than 0 sends its name. -/
theorem runs_sendName (hc : c.val ≠ 0) (w : World) :
    ∃ w', (system X).Runs (.acceptor c) (Acceptor.accept c X.N (X.hostPortName c) .start) w
        .waiting w' ∧ w'.backlog = w.backlog := by
  have hsend : ∀ (w : World) (data : Bytes), (system X).Runs (.acceptor c)
      (Acceptor.mpiSend data 0) w ()
      { w with mail := Function.update w.mail c ((w.mail c).push data) } :=
    fun w data => Runs.op ⟨rfl, rfl⟩
  simp only [Acceptor.accept]
  rw [if_neg hc]
  exact ⟨_, Runs.bind (hsend _ _) (Runs.bind (hsend _ _) (.ret _ _)), rfl⟩

theorem runs_collectHosts (ranks : List ℕ) (hlt : ∀ i ∈ ranks, i < X.N) (hnodup : ranks.Nodup)
    (hmail : ∀ i ∈ ranks, w.mail i = ⟨X.letter i, 0⟩) :
    ∃ w', (system X).Runs (.acceptor c) (Acceptor.collectHosts ranks) w
        (ranks.map X.hostPortName) w' ∧ w'.backlog = w.backlog := by
  induction ranks generalizing w with
  | nil => exact ⟨w, .ret _ _, rfl⟩
  | cons i ranks ih =>
      obtain ⟨hnot, hrest⟩ := List.nodup_cons.1 hnodup
      have hi : i < X.N := hlt i (.head _)
      have hname := X.name_length hi
      have hletter := hmail i (.head _)
      have htake : ∀ (w : World) {size : ℕ} {r : Bytes}, (w.mail i).next? = some r →
          r.length ≤ size → (system X).Runs (.acceptor c) (Acceptor.mpiRecv size i) w r
            { w with mail := Function.update w.mail i (w.mail i).pop } :=
        fun w _ _ hnext hle => Runs.op ⟨hnext, hle, rfl⟩
      obtain ⟨w', hruns, hbacklog⟩ := ih (w := { w with
        mail := Function.update (Function.update w.mail i (w.mail i).pop) i (w.mail i).pop.pop })
        (fun i' hi' => hlt i' (.tail _ hi')) hrest (fun i' hi' => by
          have hne : i' ≠ i := fun h => hnot (h ▸ hi')
          simp only [Function.update_of_ne hne]
          exact hmail i' (.tail _ hi'))
      refine ⟨w', ?_, hbacklog⟩
      unfold Acceptor.collectHosts
      have hfirst : (w.mail i).next? = some (leBytes 8 (X.hostPortName i).bytes.length) := by
        rw [hletter]
        rfl
      refine Runs.bind (htake w hfirst (leBytes_length _ _).le) ?_
      rw [leValue_leBytes_of_lt _ _ (by norm_num; omega)]
      have hsecond : (({ w with mail := Function.update w.mail i (w.mail i).pop } : World).mail
          i).next? = some (X.hostPortName i).bytes := by
        simp only [Function.update_self, hletter]
        rfl
      refine Runs.bind (htake _ hsecond (le_refl _)) ?_
      rw [X.name_takeWhile hi, StdString.ofBytes_bytes]
      simp only [Acceptor.ofExcept, pure_eq, ret_bind, Function.update_self]
      exact Runs.bind hruns (.ret _ _)

/-- Acceptor 0 starts when the others have sent their names. -/
theorem runs_start (hc : c.val = 0)
    (hmail : ∀ i, 1 ≤ i → i < X.N → w.mail i = ⟨X.letter i, 0⟩) :
    ∃ w', (system X).Runs (.acceptor c) (Acceptor.accept c X.N (X.hostPortName c) .start) w
        (.accepting X.messages ⟨0, -1, []⟩) w' ∧ w'.backlog = w.backlog := by
  have hrange : ∀ i ∈ List.range' 1 (X.N - 1), 1 ≤ i ∧ i < X.N := by
    intro i hi
    have hmem := List.mem_range'_1.1 hi
    have hN := X.one_le_N
    omega
  obtain ⟨w', hruns, hbacklog⟩ := runs_collectHosts (c := c) (List.range' 1 (X.N - 1))
    (fun i hi => (hrange i hi).2) List.nodup_range'
    (fun i hi => hmail i (hrange i hi).1 (hrange i hi).2)
  refine ⟨w', ?_, hbacklog⟩
  simp only [Acceptor.accept]
  rw [if_pos hc]
  refine Runs.bind hruns ?_
  rw [show (List.range' 1 (X.N - 1)).map X.hostPortName = X.others from rfl, X.sendHosts_others]
  exact .ret _ _

end Acceptors

end Wiring

end LibIS
