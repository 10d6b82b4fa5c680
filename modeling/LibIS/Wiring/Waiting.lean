import LibIS.Library.Completion
import LibIS.Wiring.Runs

set_option autoImplicit false

/-! # Wiring two groups of ranks: where the connectors wait

A second proof on top of the outline, about the runs in which no socket, no lookup and no connect
fails. It says of an operation that is due what it waits for: a connector waits for bytes that
acceptor 0 answers, or in a barrier. By then it has announced itself to whom it has dialled
(`Told`), so nobody waits for it. -/

open ByteCodec Prog ThreadSystem Proof

namespace LibIS

namespace Wiring

/-! ## What is due -/

/-- A socket, a lookup or a connect does not fail. -/
def succeedsConnector : (o : ConnectOp) → o.Resp → Prop
  | .socket, r => r ≠ -1
  | .lookup _, r => r ≠ none
  | .connect _ _ _, r => r = true
  | _, _ => True

def Succeeds (X : Setup) :
    (p : Party X) → (o : (system X).Op p) → World → (system X).Resp p o → Prop
  | .connector _ => fun o _ r => succeedsConnector o r
  | .acceptor _ => fun _ _ _ => True

/-- Connector `s` has announced itself in full on its connections to the acceptors in `A`. -/
def Told (X : Setup) (s : ℕ) (A : ℕ → Prop) (w : World) : Prop :=
  ∀ (c k : ℕ) (conn : Conn), A c → Linked w s c k conn → conn.up.sent = X.hello s c

abbrev ToldAll (X : Setup) (s : ℕ) : World → Prop :=
  Told X s (fun _ => True)

/-- What an operation of connector `s` finds. -/
def dueConnector (X : Setup) (s : ℕ) : ConnectOp → World → Prop
  | .connect fd server port, w => Unreached s fd w ∧
      ∃ c, c < X.N ∧ X.hostname c = server ∧ X.listenPort c = port
  | .recv fd size, w => ToldAll X s w ∧ ∃ (k : ℕ) (conn : Conn), fd = k ∧ Linked w s 0 k conn ∧
      conn.down.taken + size ≤ (X.answer 0).length
  | .leave, w => ToldAll X s w ∧ w.arrived s ≤ 2 * Connector.numGroups X.M
  | .throw _, _ => False
  | _, _ => True

/-- What connector `s` has done between two rounds of its code. -/
def settledConnector (X : Setup) (s : ℕ) : Connector.Label → World → Prop
  | .start, _ => True
  | .connected _, w => ToldAll X s w ∧ w.arrived s = 2 * Connector.numGroups X.M
  | _, w => ToldAll X s w

/-- Acceptor `c` has answered in full on those connections in `A` that it has accepted, and sent its
    name to acceptor 0. -/
structure Answering (X : Setup) (c : ℕ) (A : ℕ → Prop) (w : World) : Prop where
  taken_le : (w.backlog c).taken ≤ (w.backlog c).sent.length
  answered : ∀ k, k ∈ (w.backlog c).sent.take (w.backlog c).taken → A k →
    ∃ (s : ℕ) (conn : Conn), Linked w s c k conn ∧ conn.down.sent = X.answer c
  posted : c ≠ 0 → (w.mail c).sent = X.letter c

abbrev AnsweredAll (X : Setup) (c : ℕ) : World → Prop :=
  Answering X c (fun _ => True)

/-- What an operation of acceptor `c` finds. -/
def dueAcceptor (X : Setup) (c : ℕ) : AcceptOp → World → Prop
  | .mpiRecv size i, w => i ≠ 0 ∧ i < X.N ∧
      ∃ m, (X.letter i)[(w.mail i).taken]? = some m ∧ m.length ≤ size
  | .mpiSend _ dest, _ => dest = 0
  | .bcast _, w => c ≠ 0 → w.heard c = 0 ∧ (w.mail c).sent = X.letter c
  | .accept, w => AnsweredAll X c w ∧ (w.backlog c).taken < X.M
  | .recv fd size, w => (c ≠ 0 → (w.mail c).sent = X.letter c) ∧
      ∃ (s k : ℕ) (conn : Conn), fd = k ∧ Linked w s c k conn ∧
        conn.up.taken + size ≤ (X.hello s c).length
  | .send _ _, _ => True
  | .throw _, _ => False
  | .overrun, _ => False

/-- What acceptor `c` has done between two rounds of its code. -/
def settledAcceptor (X : Setup) (c : ℕ) : Acceptor.Label → World → Prop
  | .start, _ => True
  | .waiting, _ => True
  | .accepting _ _, w => AnsweredAll X c w
  | .accepted _, w => AnsweredAll X c w

/-- What an operation of a rank finds. -/
def due (X : Setup) : (p : Party X) → (system X).Op p → World → Prop
  | .connector s => dueConnector X s
  | .acceptor c => dueAcceptor X c

/-- What a rank has done between two rounds of its code. -/
def settled (X : Setup) : (p : Party X) → (system X).Label p → World → Prop
  | .connector s => settledConnector X s
  | .acceptor c => settledAcceptor X c

/-- The second proof. -/
@[reducible] def waiting (X : Setup) : ((outline X).known (Succeeds X)).Proof :=
  (outline X).more (Succeeds X) (due X) (settled X)

variable {X : Setup} {s : Fin X.M}

/-! ## What has been announced -/

section Told

variable {w w' : World} {n a k : ℕ} {conn : Conn} {A : ℕ → Prop} {sock : ℤ} {sockets : List ℤ}

theorem Told.mono {s : ℕ} (h : Told X s A w) (hrely : ConnectorRely s w w') : Told X s A w' := by
  intro c k conn' hA hlinked'
  obtain ⟨conn, hlinked⟩ := hlinked'.connector_back hrely
  obtain ⟨conn'', hlinked'', hfrom⟩ := hlinked.connector hrely
  have hsame : conn'' = conn' := Option.some.inj (hlinked''.get.symm.trans hlinked'.get)
  rw [← hsame, hfrom.upSent]
  exact h c k conn hA hlinked

/-- Less is announced to fewer. -/
theorem Told.anti {s : ℕ} {B : ℕ → Prop} (h : Told X s A w) (hB : ∀ c, B c → A c) : Told X s B w :=
  fun c k conn hc hlinked => h c k conn (hB c hc) hlinked

/-- Nothing is dialled, so nothing is left to announce. -/
theorem Dialled.told {s : ℕ} (h : Dialled s 0 sockets w) : ToldAll X s w :=
  fun c k conn _ hlinked => absurd (h.only c k conn hlinked) (Nat.not_lt_zero c)

theorem Told.congr {s : ℕ} (h : Told X s A w) (hconns : w'.conns = w.conns) : Told X s A w' :=
  fun c k conn hA hlinked =>
    h c k conn hA ⟨hconns ▸ hlinked.get, hlinked.source, hlinked.target⟩

theorem Told.newConn {s : ℕ} (h : Told X s A w) (s' : ℕ) :
    Told X s A { w with conns := w.conns ++ [Conn.new s'] } := by
  intro c k conn hA hlinked
  have hget := hlinked.get
  simp only [List.getElem?_append] at hget
  split at hget
  · exact h c k conn hA ⟨hget, hlinked.source, hlinked.target⟩
  · have hnew := List.mem_singleton.1 (List.mem_of_getElem? hget)
    have htarget := hlinked.target
    rw [hnew] at htarget
    exact absurd htarget (by simp [Conn.new])

/-- Bytes move on a connection, and none are sent to an acceptor in `A`. -/
theorem Told.mapConn {s : ℕ} (h : Told X s A w) (hk : w.conns[k]? = some conn) {f : Conn → Conn}
    (hsame : conn.SameEnds (f conn))
    (hup : ∀ c, A c → conn.target = some c → (f conn).up.sent = conn.up.sent) :
    Told X s A (w.mapConn k f) := by
  intro c k' conn' hA hlinked
  rcases World.mapConn_cases hk hlinked.get with ⟨rfl, rfl⟩ | ⟨-, hold⟩
  · have htarget : conn.target = some c := hsame.target.symm.trans hlinked.target
    rw [hup c hA htarget]
    exact h c k' conn hA ⟨hk, hsame.source.symm.trans hlinked.source, htarget⟩
  · exact h c k' conn' hA ⟨hold, hlinked.source, hlinked.target⟩

/-- An acceptor is reached that is not in `A`. -/
theorem Told.reach {s : ℕ} (h : Told X s A w) (hk : w.conns[k]? = some conn) (hn : ¬ A n)
    (server : Bytes) (port : ℕ) {backlog : ℕ → Channel ℕ} :
    Told X s A { w.mapConn k (fun conn => conn.reach server port n) with backlog := backlog } := by
  intro c k' conn' hA hlinked
  rcases World.mapConn_cases hk hlinked.get with ⟨rfl, rfl⟩ | ⟨-, hold⟩
  · have htarget : n = c := Option.some.inj hlinked.target
    exact absurd (htarget ▸ hA) hn
  · exact h c k' conn' hA ⟨hold, hlinked.source, hlinked.target⟩

/-- The last acceptor has been told as well. -/
theorem Greeting.told {s : ℕ} (h : Greeting s n a sockets sock (X.hello s n) w) (hinv : Inv X w)
    (htold : Told X s (· ≠ n) w) : ToldAll X s w := by
  intro c k conn _ hlinked
  by_cases hc : c = n
  · subst hc
    obtain ⟨k', conn', -, hlinked', hsent, -⟩ := h.sock
    obtain rfl := hinv.unique k k' conn conn' c hlinked.get hlinked'.get
      (hlinked.source.trans hlinked'.source.symm) hlinked.target hlinked'.target
    have hsame : conn = conn' := Option.some.inj (hlinked.get.symm.trans hlinked'.get)
    rw [hsame, hsent]
  · exact htold c k conn hc hlinked

theorem told_stable : (outline X).Stable (.connector s) (Told X s A) :=
  fun _ _ h hrely _ => h.mono hrely

end Told

/-! ## Operations -/

section Operations

variable {n a : ℕ} {sock : ℤ} {sockets : List ℤ} {A : ℕ → Prop}

theorem socket_waits :
    (waiting X).Triple (.connector s) (Told X s A) Connector.socket
      (fun sock w => Unreached s sock w ∧ Told X s A w) := by
  refine Triple.more_op told_stable (fun _ _ _ => trivial) ?_
  rintro w r w' - htold hperform (hsucceeds : r ≠ -1) -
  rcases hperform with ⟨hfailed, -⟩ | ⟨rfl, rfl⟩
  · exact absurd hfailed hsucceeds
  · exact ⟨⟨w.conns.length, Conn.new s, rfl, List.getElem?_concat_length, rfl, rfl⟩,
      htold.newConn s⟩

theorem resolve_waits {c : ℕ} (hc : c < X.N) {B : World → Prop}
    (hB : (outline X).Stable (.connector s) B) :
    (waiting X).Triple (.connector s) B (Connector.resolve (X.hostPortName c))
      (fun r w => r = (X.hostname c, (X.listenPort c : ℤ)) ∧ B w) := by
  have hlookup : (waiting X).Triple (.connector s) B (Connector.lookup (X.hostname c))
      (fun r w => r = some (X.hostname c) ∧ B w) := by
    refine Triple.more_op hB (fun _ _ _ => trivial) ?_
    rintro w r w' - hB' ⟨hr, rfl⟩ (hsucceeds : r ≠ none) -
    exact ⟨hr.resolve_left hsucceeds, hB'⟩
  unfold Connector.resolve
  rw [X.parse_name hc]
  simp only [Connector.ofExcept, pure_eq, ret_bind]
  refine Triple.bind hlookup (fun r => Triple.pure ?_)
  rintro rfl
  exact Triple.ret (fun _ _ h => ⟨rfl, h⟩)

/-- What connector `s` knows when it dials acceptor `n`. -/
structure DueDial (X : Setup) (s n a : ℕ) (sockets : List ℤ) (sock : ℤ) (w : World) : Prop where
  dialling : Dialling s n a sockets sock w
  group : n = 0 → a = groupOf s ∧ Passed X a w
  unreached : Unreached s sock w
  told : Told X s (· ≠ n) w

theorem DueDial.mono {s : ℕ} {w w' : World} (h : DueDial X s n a sockets sock w)
    (hrely : ConnectorRely s w w') : DueDial X s n a sockets sock w' :=
  ⟨h.dialling.mono hrely, fun hn => ⟨(h.group hn).1, (h.group hn).2.mono hrely⟩,
    h.unreached.mono hrely, h.told.mono hrely⟩

theorem dial_waits (hn : n < X.N) {what : String} :
    (waiting X).Triple (.connector s) (DueDial X s n a sockets sock)
      (Connector.dial sock (X.hostname n) (X.listenPort n) what)
      (fun _ w => Greeting s n a sockets sock [] w ∧ Told X s (· ≠ n) w) := by
  have hconnect : (waiting X).Triple (.connector s) (DueDial X s n a sockets sock)
      (Connector.connectSocket sock (X.hostname n) (Connector.htons (X.listenPort n)))
      (fun connected w => connected = true ∧ Told X s (· ≠ n) w) := by
    rw [X.htons_port hn]
    refine Triple.more_op (fun _ _ h hrely _ => h.mono hrely) ?_ ?_
    · exact fun w _ h => ⟨h.unreached, n, hn, rfl, rfl⟩
    · rintro w r w' - h hperform hsucceeds -
      rcases hperform with ⟨hfailed, -⟩ | ⟨k, c, conn, -, hk, -, hc, hhost, hport, rfl, rfl⟩
      · exact absurd (hfailed.symm.trans hsucceeds) Bool.false_ne_true
      · obtain rfl : c = n := X.reaches_one hc hn hhost hport
        exact ⟨rfl, h.told.reach hk (not_not.2 rfl) _ _⟩
  have hdial : (waiting X).Triple (.connector s) (DueDial X s n a sockets sock)
      (Connector.dial sock (X.hostname n) (X.listenPort n) what)
      (fun _ => Told X s (· ≠ n)) := by
    unfold Connector.dial
    refine Triple.bind hconnect (fun connected => Triple.pure ?_)
    rintro rfl
    exact Triple.ret (fun _ _ h => h)
  exact Triple.conseq (Triple.and_known (dial_triple hn) hdial)
    (fun _ _ h => ⟨⟨h.dialling, h.group⟩, h⟩) (fun _ _ _ h => h)

/-- More of what acceptor `n` is to be told is sent. -/
theorem greet_waits {sent data : Bytes} (hdata : sent ++ data <+: X.hello s n) :
    (waiting X).Triple (.connector s)
      (fun w => Greeting s n a sockets sock sent w ∧ Told X s (· ≠ n) w)
      (Connector.sendSocket sock data)
      (fun _ w => Greeting s n a sockets sock (sent ++ data) w ∧ Told X s (· ≠ n) w) := by
  refine Triple.with_known (greet_triple hdata) (Triple.more_op ?_ (fun _ _ _ => trivial) ?_)
  · exact fun _ _ h hrely _ => ⟨h.1.mono hrely, h.2.mono hrely⟩
  · rintro w r w' - ⟨h, htold⟩ ⟨k', hfd', rfl⟩ - -
    obtain ⟨k, conn, hsock, hlinked, -, -⟩ := h.sock
    obtain rfl : k = k' := Int.ofNat.inj (hsock.symm.trans hfd')
    refine htold.mapConn hlinked.get ⟨rfl, rfl, rfl, rfl⟩ (fun c hne htarget => ?_)
    exact absurd (Option.some.inj (htarget.symm.trans hlinked.target)) hne

/-- A barrier is entered at once. -/
theorem arrive_waits : (waiting X).Triple (.connector s) (ToldAll X s) Connector.arrive
    (fun _ => ToldAll X s) := by
  refine Triple.more_op told_stable (fun _ _ _ => trivial) ?_
  rintro w r w' - htold rfl - -
  exact htold.congr rfl

/-- In a barrier, a connector owes nothing to the acceptors. -/
theorem leave_waits :
    (waiting X).Triple (.connector s)
      (fun w => ToldAll X s w ∧ w.arrived s ≤ 2 * Connector.numGroups X.M) Connector.leave
      (fun _ => ToldAll X s) := by
  refine Triple.more_op ?_ (fun _ _ h => h) ?_
  · exact fun w w' h hrely _ => ⟨h.1.mono hrely, hrely.arrived.le.trans h.2⟩
  · rintro w r w' - ⟨htold, -⟩ ⟨-, rfl⟩ - -
    exact htold

/-- Waiting for bytes of acceptor 0, a connector owes nothing to the acceptors. -/
theorem recv_waits {t size : ℕ} (hsize : t + size ≤ (X.answer 0).length) :
    (waiting X).Triple (.connector s)
      (fun w => (w.arrived s = a ∧ Receiving s t sock w) ∧ ToldAll X s w)
      (Connector.recvSocket sock size)
      (fun r w => r = ((X.answer 0).drop t).take size ∧
        (w.arrived s = a ∧ Receiving s (t + size) sock w) ∧ ToldAll X s w) := by
  refine Triple.conseq (Triple.with_known recv_triple (Triple.more_op ?_ ?_ ?_)) (fun _ _ h => h)
    (fun r w _ h => ⟨h.1.1.1, h.1.2, h.2⟩)
  · exact fun w w' h hrely _ =>
      ⟨⟨hrely.arrived.trans h.1.1, h.1.2.mono hrely⟩, h.2.mono hrely⟩
  · rintro w - ⟨⟨-, -, k, conn, hsock, hlinked, htaken, -⟩, htold⟩
    exact ⟨htold, k, conn, hsock, hlinked, by rw [htaken]; exact hsize⟩
  · rintro w r w' - ⟨-, htold⟩ ⟨k, conn, -, hk, -, -, rfl⟩ - -
    exact htold.mapConn hk ⟨rfl, rfl, rfl, rfl⟩ (fun _ _ _ => rfl)

end Operations

/-! ## Dialling -/

theorem dialAll_waits {a : ℕ} (m n : ℕ) (hn : 1 ≤ n) (hm : n + m ≤ X.N) (sockets : List ℤ) :
    (waiting X).Triple (.connector s)
      (fun w => (w.arrived s = a ∧ Dialled s n sockets w) ∧ ToldAll X s w)
      (Connector.dialAll s ((List.range' n m).map X.hostPortName) sockets)
      (fun _ => ToldAll X s) := by
  induction m generalizing n sockets with
  | zero => exact Triple.ret (fun _ _ h => h.2)
  | succ m ih =>
      have hhello : X.hello s n = [] ++ intBytes (Int32.ofNat s) := by
        rw [Setup.hello, if_neg (fun hboth => by omega), List.append_nil, List.nil_append]
      have hsocket : (waiting X).Triple (.connector s)
          (fun w => (w.arrived s = a ∧ Dialled s n sockets w) ∧ ToldAll X s w) Connector.socket
          (fun sock w => Dialling s n a sockets sock w ∧ Unreached s sock w ∧ ToldAll X s w) :=
        Triple.with_known socket_triple
          (Triple.conseq socket_waits (fun _ _ h => h.2) (fun _ _ _ h => h))
      rw [List.range'_succ, List.map_cons]
      unfold Connector.dialAll
      refine Triple.bind hsocket (fun sock => ?_)
      refine Triple.bind (resolve_waits (by omega) ?_) (fun r => Triple.pure ?_)
      · exact fun w w' h hrely _ => ⟨h.1.mono hrely, h.2.1.mono hrely, h.2.2.mono hrely⟩
      rintro rfl
      have hdue : ∀ w, Dialling s n a sockets sock w ∧ Unreached s sock w ∧ ToldAll X s w →
          DueDial X s n a sockets sock w := by
        rintro w ⟨hdialling, hsock, htold⟩
        exact ⟨hdialling, fun hzero => by omega, hsock, htold.anti (fun _ _ => trivial)⟩
      refine Triple.bind (Triple.conseq (dial_waits (by omega)) (fun w _ h => hdue w h)
        (fun _ _ _ h => h)) (fun _ => ?_)
      refine Triple.bind (greet_waits (hhello ▸ List.prefix_refl _)) (fun _ => ?_)
      refine Triple.conseq (ih (n + 1) (by omega) (by omega) (sockets ++ [sock])) ?_
        (fun _ _ _ h => h)
      rintro w hinv ⟨h, htold⟩
      rw [← hhello] at h
      exact ⟨⟨h.arrived, h.dialled⟩, h.told hinv htold⟩

/-- Acceptor 0 is dialled, and told all that it is to be told. -/
theorem dialRoot_waits {sock : ℤ} :
    (waiting X).Triple (.connector s) (DueDial X s 0 (groupOf s) [] sock)
      (Connector.dialRoot s X.M sock (X.hostname 0) (X.listenPort 0))
      (fun _ => ToldAll X s) := by
  unfold Connector.dialRoot
  refine Triple.bind (dial_waits X.one_le_N) (fun _ => ?_)
  refine Triple.bind (greet_waits (List.prefix_append _ _)) (fun _ => ?_)
  by_cases hs : s.val = 0
  · have hhello : X.hello s 0 = [] ++ intBytes (Int32.ofNat s) ++ intBytes (Int32.ofNat X.M) := by
      rw [Setup.hello, if_pos ⟨hs, rfl⟩]
      rfl
    rw [if_pos hs]
    refine Triple.conseq (greet_waits (hhello ▸ List.prefix_refl _)) (fun _ _ h => h) ?_
    rintro - w hinv ⟨h, htold⟩
    rw [← hhello] at h
    exact h.told hinv htold
  · have hhello : X.hello s 0 = [] ++ intBytes (Int32.ofNat s) := by
      rw [Setup.hello, if_neg (fun hboth => hs hboth.1), List.append_nil, List.nil_append]
    rw [if_neg hs]
    refine Triple.ret (fun w hinv h => ?_)
    rw [← hhello] at h
    exact h.1.told hinv h.2

theorem recvHosts_waits (halloc : X.alloc = unlimited) {a : ℕ} {sock : ℤ} :
    (waiting X).Triple (.connector s)
      (fun w => (w.arrived s = a ∧ Receiving s 0 sock w) ∧ ToldAll X s w)
      ((recvHosts X.alloc).interp (Connector.onSocket sock)) (fun _ => ToldAll X s) := by
  have hanswer := X.answer_root
  have hlength : (X.answer 0).length = 8 + (hostsBytes X.others).length := by
    rw [hanswer, List.length_append, leBytes_length]
  have hfirst : ((X.answer 0).drop 0).take 8 = leBytes 8 (hostsBytes X.others).length := by
    rw [List.drop_zero, hanswer]
    exact List.take_left' (leBytes_length _ _)
  have hsecond : (X.answer 0).drop (0 + 8) = hostsBytes X.others := by
    rw [hanswer]
    exact List.drop_left' (leBytes_length _ _)
  have hlt := X.hostsBytes_lt
  have hsize : leValue (leBytes 8 (hostsBytes X.others).length) = (hostsBytes X.others).length :=
    leValue_leBytes_of_lt _ _ (by norm_num; omega)
  unfold recvHosts
  rw [Receive.recv_bind, interp_vis]
  refine Triple.bind (recv_waits (by omega)) (fun r => Triple.pure ?_)
  rintro rfl
  rw [hfirst, hsize, Receive.recv_bind, interp_vis]
  refine Triple.bind (recv_waits (by omega)) (fun r => Triple.pure ?_)
  rintro rfl
  rw [hsecond, List.take_length, halloc, decode_hosts hlt, Receive.ofExcept_ok]
  exact Triple.ret (fun _ _ h => h.2)

/-! ## The code -/

theorem connect_waits_start :
    (waiting X).Triple (.connector s) (connectorPost X s .start)
      (Connector.connect X.alloc s X.M (X.hostPortName 0) .start) (settledConnector X s) := by
  refine Triple.bind (Triple.conseq socket_waits (fun w _ h => h.2.told) (fun _ _ _ h => h))
    (fun sock => ?_)
  by_cases hsock : sock = -1
  · have hnone : ∀ w, Unreached s sock w ∧ ToldAll X s w → False ∧ True := by
      rintro w ⟨⟨k, conn, hk, -⟩, -⟩
      omega
    exact Triple.conseq (Triple.pure False.elim) (fun w _ h => hnone w h) (fun _ _ _ h => h)
  · rw [if_neg hsock]
    refine Triple.bind (resolve_waits X.one_le_N ?_) (fun r => Triple.pure ?_)
    · exact fun w w' h hrely _ => ⟨h.1.mono hrely, h.2.mono hrely⟩
    rintro rfl
    exact Triple.ret (fun _ _ h => h.2)

theorem connect_waits_rootGroup (is : List ℕ) (sock : ℤ) (server : Bytes) (port : ℤ)
    (remoteHosts : List StdString) :
    (waiting X).Triple (.connector s)
      (fun w => connectorPost X s (.rootGroup is sock server port remoteHosts) w ∧ ToldAll X s w)
      (Connector.connect X.alloc s X.M (X.hostPortName 0)
        (.rootGroup is sock server port remoteHosts)) (settledConnector X s) := by
  cases is with
  | nil => exact Triple.ret (fun _ _ h => h.2)
  | cons i is =>
      by_cases hin : Connector.InGroup s i
      · simp only [Connector.connect]
        rw [if_pos hin]
        have hpre : ∀ w, connectorPost X s (.rootGroup (i :: is) sock server port remoteHosts) w ∧
            ToldAll X s w → (server = X.hostname 0 ∧ port = X.listenPort 0) ∧
              DueDial X s 0 (groupOf s) [] sock w := by
          rintro w ⟨⟨j, his, hpassed, hat⟩, htold⟩
          obtain ⟨-, rfl, -⟩ := groups_next his
          obtain rfl : groupOf s = j := Connector.inGroup_iff.1 hin
          rcases hat.state with ⟨-, hsock, hdialled⟩ | ⟨hlt, -⟩
          · exact ⟨⟨hat.server, hat.port⟩, ⟨hat.arrived, hdialled, .inr hsock⟩,
              fun _ => ⟨rfl, hpassed⟩, hsock, htold.anti (fun _ _ => trivial)⟩
          · omega
        refine Triple.conseq (Triple.pure ?_) (fun w _ h => hpre w h) (fun _ _ _ h => h)
        rintro ⟨rfl, rfl⟩
        exact Triple.bind dialRoot_waits (fun _ => Triple.ret (fun _ _ h => h))
      · simp only [Connector.connect]
        rw [if_neg hin]
        exact Triple.bind (Triple.conseq arrive_waits (fun _ _ h => h.2) (fun _ _ _ h => h))
          (fun _ => Triple.ret (fun _ _ h => h))

theorem connect_waits_group (is : List ℕ) (sockets : List ℤ) (remoteHosts : List StdString) :
    (waiting X).Triple (.connector s)
      (fun w => connectorPost X s (.group is sockets remoteHosts) w ∧ ToldAll X s w)
      (Connector.connect X.alloc s X.M (X.hostPortName 0) (.group is sockets remoteHosts))
      (settledConnector X s) := by
  cases is with
  | nil =>
      refine Triple.ret ?_
      rintro w - ⟨⟨j, his, hat⟩, htold⟩
      have hj := groups_done his hat.le
      have harrived := hat.arrived
      exact ⟨htold, by omega⟩
  | cons i is =>
      simp only [Connector.connect]
      have hbarrier : ∀ sockets', (waiting X).Triple (.connector s) (ToldAll X s)
          (Connector.arrive >>= fun _ => pure (Connector.Label.barrier is sockets' remoteHosts))
          (settledConnector X s) :=
        fun _ => Triple.bind arrive_waits (fun _ => Triple.ret (fun _ _ h => h))
      by_cases hin : Connector.InGroup s i
      · rw [if_pos hin]
        have hpre : ∀ w, connectorPost X s (.group (i :: is) sockets remoteHosts) w ∧
            ToldAll X s w → remoteHosts = X.others ∧
              (w.arrived s = Connector.numGroups X.M + groupOf s ∧ Dialled s 1 sockets w) ∧
                ToldAll X s w := by
          rintro w ⟨⟨j, his, hat⟩, htold⟩
          obtain ⟨-, rfl, -⟩ := groups_next his
          obtain rfl : groupOf s = j := Connector.inGroup_iff.1 hin
          rcases hat.state with ⟨-, hdialled⟩ | ⟨hlt, -⟩
          · exact ⟨hat.remoteHosts, ⟨hat.arrived, hdialled⟩, htold⟩
          · omega
        refine Triple.conseq (Triple.pure ?_) (fun w _ h => hpre w h) (fun _ _ _ h => h)
        rintro rfl
        have hall := dialAll_waits (s := s) (a := Connector.numGroups X.M + groupOf s) (X.N - 1) 1
          (le_refl 1) (by have hN := X.one_le_N; omega) sockets
        exact Triple.bind hall hbarrier
      · rw [if_neg hin]
        exact Triple.conseq (hbarrier sockets) (fun _ _ h => h.2) (fun _ _ _ h => h)

/-- What a connector has done holds along its code. -/
theorem connect_waits (halloc : X.alloc = unlimited) (l : Connector.Label) :
    (waiting X).Triple (.connector s) (fun w => connectorPost X s l w ∧ settledConnector X s l w)
      (Connector.connect X.alloc s X.M (X.hostPortName 0) l) (settledConnector X s) := by
  cases l with
  | start => exact Triple.conseq connect_waits_start (fun _ _ h => h.1) (fun _ _ _ h => h)
  | rootGroup is sock server port remoteHosts =>
      exact connect_waits_rootGroup is sock server port remoteHosts
  | asking is sock server port =>
      have hpre : ∀ w, connectorPost X s (.asking is sock server port) w ∧ ToldAll X s w →
          (w.arrived s = groupOf s ∧ Receiving s 0 sock w) ∧ ToldAll X s w := by
        rintro w ⟨⟨-, harrived, -, -, hreceiving⟩, htold⟩
        exact ⟨⟨harrived, hreceiving⟩, htold⟩
      refine Triple.bind (Triple.conseq (recvHosts_waits halloc) (fun w _ h => hpre w h)
        (fun _ _ _ h => h)) (fun hosts => ?_)
      exact Triple.bind arrive_waits (fun _ => Triple.ret (fun _ _ h => h))
  | rootBarrier is sock server port remoteHosts =>
      refine Triple.bind (Triple.conseq leave_waits ?_ (fun _ _ _ h => h))
        (fun _ => Triple.ret (fun _ _ h => h))
      rintro w - ⟨⟨j, -, hat⟩, htold⟩
      have hle := hat.le
      have harrived := hat.arrived
      exact ⟨htold, by omega⟩
  | group is sockets remoteHosts => exact connect_waits_group is sockets remoteHosts
  | barrier is sockets remoteHosts =>
      refine Triple.bind (Triple.conseq leave_waits ?_ (fun _ _ _ h => h))
        (fun _ => Triple.ret (fun _ _ h => h))
      rintro w - ⟨⟨j, -, hat⟩, htold⟩
      have hle := hat.le
      have harrived := hat.arrived
      exact ⟨htold, by omega⟩
  | connected sockets => exact Triple.ret (fun _ _ h => h.2)

end Wiring

end LibIS
