import LibIS.Wiring.Waiting

set_option autoImplicit false

/-! # Wiring two groups of ranks: where the acceptors wait

The second proof for the acceptors. Acceptor 0 waits for names that the others owe it, the others
for the number of connectors, and all for connections and for what is announced on them. By then an
acceptor has answered the connections that it has accepted before (`Answering`). -/

open ByteCodec Prog ThreadSystem Proof

namespace LibIS

namespace Wiring

variable {X : Setup} {c : Fin X.N}

/-! ## What has been answered -/

section Answering

variable {w w' : World} {k : ℕ} {conn : Conn} {A : ℕ → Prop}

theorem Answering.mono {c : ℕ} (h : Answering X c A w) (hrely : AcceptorRely c w w') :
    Answering X c A w' := by
  refine ⟨?_, fun k hk hA => ?_, fun hc => (hrely.letter hc).trans (h.posted hc)⟩
  · rw [hrely.taken]
    exact h.taken_le.trans hrely.sent.length_le
  · rw [hrely.taken, hrely.sent.take_eq h.taken_le] at hk
    obtain ⟨s, conn, hlinked, hsent⟩ := h.answered k hk hA
    obtain ⟨conn', hlinked', hfrom⟩ := hlinked.acceptor hrely
    exact ⟨s, conn', hlinked', hfrom.downSent.trans hsent⟩

theorem Accepted.answering {c : ℕ} (h : Accepted c [] w)
    (hposted : c ≠ 0 → (w.mail c).sent = X.letter c) : AnsweredAll X c w := by
  have hzero : (w.backlog c).taken = 0 := h.count
  refine ⟨by rw [hzero]; exact Nat.zero_le _, fun k hk _ => ?_, hposted⟩
  rw [hzero, List.take_zero] at hk
  exact absurd hk (by simp)

/-- Only the connections, the queue and the mail of the acceptor matter. -/
theorem Answering.congr {c : ℕ} (h : Answering X c A w) (hconns : w'.conns = w.conns)
    (hbacklog : w'.backlog = w.backlog) (hmail : w'.mail = w.mail) : Answering X c A w' := by
  refine ⟨by rw [hbacklog]; exact h.taken_le, fun k hk hA => ?_, by rw [hmail]; exact h.posted⟩
  rw [hbacklog] at hk
  obtain ⟨s, conn, hlinked, hsent⟩ := h.answered k hk hA
  exact ⟨s, conn, ⟨hconns ▸ hlinked.get, hlinked.source, hlinked.target⟩, hsent⟩

/-- Bytes move on a connection, and none are answered on one in `A`. -/
theorem Answering.mapConn {c : ℕ} (h : Answering X c A w) (hk : w.conns[k]? = some conn)
    {f : Conn → Conn} (hsame : conn.SameEnds (f conn))
    (hdown : A k → (f conn).down.sent = conn.down.sent) : Answering X c A (w.mapConn k f) := by
  refine ⟨h.taken_le, fun k' hk' hA => ?_, h.posted⟩
  obtain ⟨s, conn', hlinked, hsent⟩ := h.answered k' hk' hA
  by_cases hkk : k = k'
  · subst hkk
    have hconn : conn' = conn := Option.some.inj (hlinked.get.symm.trans hk)
    rw [hconn] at hlinked hsent
    exact ⟨s, f conn, hlinked.mapConn hsame, (hdown hA).trans hsent⟩
  · exact ⟨s, conn', ⟨(World.mapConn_of_ne hkk).trans hlinked.get, hlinked.source, hlinked.target⟩,
      hsent⟩

/-- One more connection is accepted, which is still to be answered. -/
theorem Answering.accept {c : ℕ} (h : AnsweredAll X c w) (hnext : (w.backlog c).next? = some k) :
    Answering X c (· ≠ k)
      { w with backlog := Function.update w.backlog c (w.backlog c).pop } := by
  refine ⟨?_, fun k' hk' hne => ?_, h.posted⟩
  · simp only [Function.update_self]
    exact Channel.pop_taken_le hnext
  · simp only [Function.update_self, Channel.pop_sent, Channel.pop_taken] at hk'
    rw [List.take_add_one, show (w.backlog c).sent[(w.backlog c).taken]? = some k from hnext,
      List.mem_append, Option.toList_some, List.mem_singleton] at hk'
    obtain ⟨s, conn, hlinked, hsent⟩ := h.answered k' (hk'.resolve_right hne) trivial
    exact ⟨s, conn, ⟨hlinked.get, hlinked.source, hlinked.target⟩, hsent⟩

/-- The last connection has been answered as well. -/
theorem Serving.answered {c s k t : ℕ} {peers : List (ℕ × ℕ)} {casts : List Bytes}
    (h : Serving c peers casts s k t (X.answer c) w) (hansw : Answering X c (· ≠ k) w) :
    AnsweredAll X c w := by
  refine ⟨hansw.taken_le, fun k' hk' _ => ?_, hansw.posted⟩
  by_cases hkk : k' = k
  · obtain ⟨conn, hlinked, -, -, hsent⟩ := h.conn
    exact ⟨s, conn, hkk ▸ hlinked, hsent⟩
  · exact hansw.answered k' hk' hkk

theorem answering_stable : (outline X).Stable (.acceptor c) (Answering X c A) :=
  fun _ _ h hrely _ => h.mono hrely

end Answering

/-! ## Operations -/

section Operations

variable {peers : List (ℕ × ℕ)} {casts : List Bytes} {s k t : ℕ} {sent : Bytes}

/-- What acceptor `c` knows while it serves the connection that it has accepted last. -/
abbrev ServingOnly (X : Setup) (c : ℕ) (peers : List (ℕ × ℕ)) (casts : List Bytes) (s k t : ℕ)
    (sent : Bytes) (w : World) : Prop :=
  Serving c peers casts s k t sent w ∧ Answering X c (· ≠ k) w

theorem servingOnly_stable :
    (outline X).Stable (.acceptor c) (ServingOnly X c peers casts s k t sent) :=
  fun _ _ h hrely _ => ⟨h.1.mono hrely, h.2.mono hrely⟩

/-- A connection is waited for when all before it have been answered, and not all connectors have
    been accepted. -/
theorem acceptSocket_waits :
    (waiting X).Triple (.acceptor c)
      (fun w => (Accepted c peers w ∧ (c.val = 0 → w.cast = casts)) ∧
        AnsweredAll X c w ∧ (w.backlog c).taken < X.M) Acceptor.acceptSocket
      (fun fd w => ∃ s k : ℕ, fd = k ∧ ServingOnly X c peers casts s k 0 [] w) := by
  have hopen : (waiting X).Triple (.acceptor c)
      (fun w => (Accepted c peers w ∧ (c.val = 0 → w.cast = casts)) ∧
        AnsweredAll X c w ∧ (w.backlog c).taken < X.M) Acceptor.acceptSocket
      (fun fd w => ∃ k : ℕ, fd = k ∧ Answering X c (· ≠ k) w) := by
    refine Triple.more_op ?_ (fun _ _ h => h.2) ?_
    · rintro w w' ⟨⟨haccepted, hcast⟩, hall, hlt⟩ hrely -
      exact ⟨⟨haccepted.mono hrely, fun hc => (hrely.cast hc).trans (hcast hc)⟩, hall.mono hrely,
        hrely.taken.trans_lt hlt⟩
    · rintro w r w' - ⟨-, hall, -⟩ ⟨k, hnext, rfl, rfl⟩ - -
      exact ⟨k, rfl, hall.accept hnext⟩
  refine Triple.conseq (Triple.with_known acceptSocket_triple hopen) (fun _ _ h => h) ?_
  rintro fd w - ⟨⟨s, k, rfl, hserving⟩, ⟨k', hfd, hansw⟩⟩
  obtain rfl : k = k' := Int.ofNat.inj hfd
  exact ⟨s, k, rfl, hserving, hansw⟩

/-- What is received has been announced. -/
theorem acceptRecv_waits {size : ℕ} (hsize : t + size ≤ (X.hello s c).length) :
    (waiting X).Triple (.acceptor c) (ServingOnly X c peers casts s k t sent)
      (Acceptor.recvSocket k size)
      (fun r w => (r = ((X.hello s c).drop t).take size ∧ r.length = size) ∧
        ServingOnly X c peers casts s k (t + size) sent w) := by
  refine Triple.conseq (Triple.with_known acceptRecv_triple (Triple.more_op servingOnly_stable ?_ ?_))
    (fun _ _ h => h) (fun r w _ h => ⟨h.1.1, h.1.2, h.2⟩)
  · rintro w - ⟨hserving, hansw⟩
    obtain ⟨conn, hlinked, htaken, -⟩ := hserving.conn
    exact ⟨hansw.posted, s, k, conn, rfl, hlinked, by rw [htaken]; exact hsize⟩
  · rintro w r w' - ⟨-, hansw⟩ ⟨k', conn, -, hk, -, -, rfl⟩ - -
    exact hansw.mapConn hk ⟨rfl, rfl, rfl, rfl⟩ (fun _ => rfl)

theorem recvInt_waits {old n : Int32} {rest : Bytes}
    (hn : (X.hello s c).drop t = intBytes n ++ rest) :
    (waiting X).Triple (.acceptor c) (ServingOnly X c peers casts s k t sent)
      (Acceptor.recvInt k old)
      (fun r w => r = n ∧ ServingOnly X c peers casts s k (t + 4) sent w) := by
  have hlength := congrArg List.length hn
  rw [List.length_drop, List.length_append, intBytes_length] at hlength
  unfold Acceptor.recvInt
  refine Triple.bind (acceptRecv_waits (by omega)) (fun r => Triple.pure ?_)
  rintro ⟨rfl, -⟩
  have hmoved : ((X.hello s c).drop t).take 4 = intBytes n := by
    rw [hn]
    exact List.take_left' (intBytes_length _)
  have hnone : (intBytes old).drop (intBytes n).length = [] := by
    rw [List.drop_eq_nil_iff, intBytes_length, intBytes_length]
  rw [hmoved, hnone, List.append_nil, intOfBytes_intBytes]
  exact Triple.ret (fun _ _ h => ⟨rfl, h⟩)

/-- The answer is sent at once. -/
theorem sendEach_waits (ms : List Bytes) (hms : sent ++ ms.flatten <+: X.answer c) :
    (waiting X).Triple (.acceptor c) (ServingOnly X c peers casts s k t sent)
      (Acceptor.sendEach k ms)
      (fun _ => ServingOnly X c peers casts s k t (sent ++ ms.flatten)) := by
  refine Triple.with_known (sendEach_triple ms hms) (Triple.conseq ?_ (fun _ _ h => h.2)
    (fun _ _ _ h => h))
  clear hms
  induction ms with
  | nil => exact Triple.ret (fun _ _ h => h)
  | cons m ms ih =>
      unfold Acceptor.sendEach
      refine Triple.bind (Triple.more_op answering_stable (fun _ _ _ => trivial) ?_) (fun _ => ih)
      rintro w r w' - hansw ⟨k', hfd, rfl⟩ - ⟨k'', s', conn, hfd', hlinked, -, -⟩
      obtain rfl : k = k' := Int.ofNat.inj hfd
      obtain rfl : k = k'' := Int.ofNat.inj hfd'
      exact hansw.mapConn hlinked.get ⟨rfl, rfl, rfl, rfl⟩ (fun hne => absurd rfl hne)

theorem bcast_waits (hc : c.val = 0) :
    (waiting X).Triple (.acceptor c) (ServingOnly X c peers [] s k t sent)
      (Acceptor.mpiBcast (intBytes (Int32.ofNat X.M)))
      (fun _ => ServingOnly X c peers [intBytes (Int32.ofNat X.M)] s k t sent) := by
  refine Triple.with_known (bcast_triple hc) (Triple.more_op servingOnly_stable ?_ ?_)
  · exact fun w _ _ hne => absurd hc hne
  · rintro w r w' - ⟨-, hansw⟩ hperform - -
    simp only [performAcceptor] at hperform
    rw [if_pos hc] at hperform
    obtain ⟨-, rfl⟩ := hperform
    exact hansw.congr rfl rfl rfl

end Operations

/-! ## Rounds -/

/-- Where the loop goes on, not all connectors have been accepted. -/
theorem AcceptingAt.taken_lt {c : ℕ} {hosts : List Bytes} {st : Acceptor.Accepting}
    {peers : List (ℕ × ℕ)} {w : World} (h : AcceptingAt X c hosts st peers w) (hinv : Inv X w)
    (hmore : st.nconnected ≠ st.nexpected.toInt) : (w.backlog c).taken < X.M := by
  have hle := (h.accepted.subperm hinv).length_le
  rw [List.length_map, List.length_range] at hle
  rw [h.accepted.count]
  refine lt_of_le_of_ne hle (fun hlen => hmore ?_)
  rw [h.locals.nconnected, h.locals.nexpected, hlen, expectedAt,
    if_pos (h.accepted.all hinv hlen X.one_le_M), ite_self, Acceptor.toInt_rank X.M_lt]

theorem acceptRemote_waits {peers : List (ℕ × ℕ)} {hosts : List Bytes} {st : Acceptor.Accepting}
    (hmore : st.nconnected ≠ st.nexpected.toInt) :
    (waiting X).Triple (.acceptor c)
      (fun w => AcceptingAt X c hosts st peers w ∧ AnsweredAll X c w) (Acceptor.acceptRemote st)
      (fun r w => ∃ s k : ℕ, (r = ((k : ℤ), Int32.ofNat s, st.connect (Int32.ofNat s) k) ∧
          s < X.M ∧ (s = 0 → castAt X peers = [])) ∧
        ServingOnly X c peers (castAt X peers) s k 4 [] w) := by
  have hdue : ∀ w, Inv X w → AcceptingAt X c hosts st peers w ∧ AnsweredAll X c w →
      (Accepted c peers w ∧ (c.val = 0 → w.cast = castAt X peers)) ∧
        AnsweredAll X c w ∧ (w.backlog c).taken < X.M :=
    fun w hinv h => ⟨⟨h.1.accepted, h.1.cast⟩, h.2, h.1.taken_lt hinv hmore⟩
  unfold Acceptor.acceptRemote
  refine Triple.bind (Triple.conseq acceptSocket_waits hdue (fun _ _ _ h => h)) (fun fd => ?_)
  refine Triple.exists (fun s => Triple.exists (fun k => Triple.pure ?_))
  rintro rfl
  have hrank : (X.hello s c).drop 0 = intBytes (Int32.ofNat s) ++ _ := rfl
  refine Triple.bind (recvInt_waits hrank) (fun r => Triple.pure ?_)
  rintro rfl
  refine Triple.ret (fun w hinv h => ⟨s, k, ⟨rfl, ?_, fun hzero => ?_⟩, h⟩)
  · exact (h.1.accepted.ranks hinv).2 (s, k) (.head _)
  · have hnew := (List.nodup_cons.1 (h.1.accepted.ranks hinv).1).1
    exact if_neg (hzero ▸ hnew)

theorem rootRound_waits (hc : c.val = 0) {peers : List (ℕ × ℕ)} {hosts : List Bytes}
    {st : Acceptor.Accepting} (hmore : st.nconnected ≠ st.nexpected.toInt) :
    (waiting X).Triple (.acceptor c)
      (fun w => AcceptingAt X c hosts st peers w ∧ AnsweredAll X c w)
      (Acceptor.rootRound hosts st) (fun _ => AnsweredAll X c) := by
  have hpre : ∀ w, AcceptingAt X c hosts st peers w ∧ AnsweredAll X c w →
      hosts = X.messages ∧ AcceptingAt X c hosts st peers w ∧ AnsweredAll X c w :=
    fun w h => ⟨h.1.locals.hosts hc, h⟩
  refine Triple.conseq (Triple.pure ?_) (fun w _ h => hpre w h) (fun _ _ _ h => h)
  intro hhosts
  have hanswer : [] ++ hosts.flatten = X.answer c := by
    rw [Setup.answer, if_pos hc, hhosts, List.nil_append]
  have hlast : ∀ (casts : List Bytes) (s k t : ℕ) (st' : Acceptor.Accepting),
      (waiting X).Triple (.acceptor c) (ServingOnly X c peers casts s k t [])
        (Acceptor.sendEach k hosts >>= fun _ => pure st') (fun _ => AnsweredAll X c) := by
    intro casts s k t st'
    refine Triple.bind (sendEach_waits hosts (hanswer ▸ List.prefix_refl _))
      (fun _ => Triple.ret (fun w _ h => ?_))
    rw [hanswer] at h
    exact h.1.answered h.2
  unfold Acceptor.rootRound
  refine Triple.bind (acceptRemote_waits hmore) (fun r => ?_)
  refine Triple.exists (fun s => Triple.exists (fun k => Triple.pure ?_))
  rintro ⟨rfl, hs, hcast⟩
  by_cases hzero : s = 0
  · -- connector 0 tells how many connectors there are
    subst hzero
    have hsize : (X.hello 0 c).drop 4 = intBytes (Int32.ofNat X.M) ++ [] := by
      rw [Setup.hello, if_pos ⟨rfl, hc⟩, List.append_nil]
      exact List.drop_left' (intBytes_length _)
    have hif : Int32.ofNat 0 = 0 := rfl
    simp only [hif, if_true]
    rw [hcast rfl]
    refine Triple.bind (recvInt_waits hsize) (fun r => Triple.pure ?_)
    rintro rfl
    exact Triple.bind (bcast_waits hc) (fun _ => hlast _ _ _ _ _)
  · have hif : Int32.ofNat s ≠ 0 := fun h => hzero ((ofNat_eq_zero hs).1 h)
    simp only [hif, if_false]
    exact hlast _ _ _ _ _

theorem otherRound_waits (hc : c.val ≠ 0) {peers : List (ℕ × ℕ)} {hosts : List Bytes}
    {st : Acceptor.Accepting} (hmore : st.nconnected ≠ st.nexpected.toInt) :
    (waiting X).Triple (.acceptor c)
      (fun w => AcceptingAt X c hosts st peers w ∧ AnsweredAll X c w)
      (Acceptor.otherRound st) (fun _ => AnsweredAll X c) := by
  have hanswer : X.answer c = [] := if_neg hc
  unfold Acceptor.otherRound
  refine Triple.bind (acceptRemote_waits hmore) (fun r => ?_)
  refine Triple.exists (fun s => Triple.exists (fun k => Triple.pure ?_))
  rintro ⟨rfl, -, -⟩
  refine Triple.ret (fun w _ h => ?_)
  rw [← hanswer] at h
  exact h.1.answered h.2

/-! ## Before the loop -/

/-- A part of the name of acceptor `i` is waited for, and fits into the buffer. -/
theorem mpiRecv_waits (hc : c.val = 0) {ranks : List ℕ} {i t size : ℕ} (hi : i < X.N)
    (hnot : i ∉ ranks) (hzero : i ≠ 0) {m : Bytes} (hm : (X.letter i)[t]? = some m)
    (hsize : m.length ≤ size) :
    (waiting X).Triple (.acceptor c) (fun w => Collecting ranks w ∧ (w.mail i).taken = t)
      (Acceptor.mpiRecv size i)
      (fun r w => r = m ∧ Collecting ranks w ∧ (w.mail i).taken = t + 1) := by
  refine Triple.conseq (Triple.and_known (mpiRecv_triple hc hi hnot)
    (Triple.more_op (Q := fun _ _ => True) ?_ ?_ (fun _ _ _ _ _ _ _ _ => trivial)))
    (fun _ _ h => ⟨h, h⟩) (fun r w _ h => ⟨Option.some.inj (h.1.1.symm.trans hm), h.1.2⟩)
  · rintro w w' ⟨⟨haccepted, hcast, hmail⟩, htaken⟩ (hrely : AcceptorRely c w w') -
    rw [hc] at hrely
    exact ⟨⟨haccepted.mono hrely, (hrely.cast rfl).trans hcast,
      fun i' hi' => (hrely.mail rfl i').trans (hmail i' hi')⟩, (hrely.mail rfl i).trans htaken⟩
  · rintro w - ⟨-, htaken⟩
    exact ⟨hzero, hi, m, by rw [htaken]; exact hm, hsize⟩

theorem collectHosts_waits (hc : c.val = 0) (ranks : List ℕ)
    (hranks : ∀ i ∈ ranks, i ≠ 0 ∧ i < X.N) (hnodup : ranks.Nodup) :
    (waiting X).Triple (.acceptor c) (Collecting ranks) (Acceptor.collectHosts ranks)
      (fun hosts w => hosts = ranks.map X.hostPortName ∧ Collecting [] w) := by
  induction ranks with
  | nil => exact Triple.ret (fun _ _ h => ⟨rfl, h⟩)
  | cons i ranks ih =>
      obtain ⟨hnot, hrest⟩ := List.nodup_cons.1 hnodup
      obtain ⟨hzero, hi⟩ := hranks i (.head _)
      have hname := X.name_length hi
      have hsize : leValue (leBytes 8 (X.hostPortName i).bytes.length) =
          (X.hostPortName i).bytes.length := leValue_leBytes_of_lt _ _ (by norm_num; omega)
      unfold Acceptor.collectHosts
      refine Triple.bind (Triple.conseq (mpiRecv_waits (t := 0) hc hi hnot hzero rfl
        (leBytes_length _ _).le) (fun w _ h => ?_) (fun _ _ _ h => h)) (fun size => Triple.pure ?_)
      · exact ⟨⟨h.1, h.2.1, fun i' hi' => h.2.2 i' (.tail _ hi')⟩, h.2.2 i (.head _)⟩
      rintro rfl
      rw [hsize]
      refine Triple.bind (mpiRecv_waits hc hi hnot hzero rfl (le_refl _))
        (fun buf => Triple.pure ?_)
      rintro rfl
      rw [X.name_takeWhile hi, StdString.ofBytes_bytes]
      simp only [Acceptor.ofExcept, pure_eq, ret_bind]
      refine Triple.bind (Triple.conseq (ih (fun i' hi' => hranks i' (.tail _ hi')) hrest)
        (fun _ _ h => h.1) (fun _ _ _ h => h)) (fun hosts => Triple.pure ?_)
      rintro rfl
      exact Triple.ret (fun _ _ h => ⟨rfl, h⟩)

theorem accept_waits_start :
    (waiting X).Triple (.acceptor c) (acceptorPost X c .start)
      (Acceptor.accept c X.N (X.hostPortName c) .start) (settledAcceptor X c) := by
  simp only [Acceptor.accept]
  by_cases hc : c.val = 0
  · rw [if_pos hc]
    have hranks : ∀ i ∈ List.range' 1 (X.N - 1), i ≠ 0 ∧ i < X.N := by
      intro i hi
      have hrange := List.mem_range'_1.1 hi
      have hN := X.one_le_N
      omega
    have hcollect := collectHosts_waits hc (List.range' 1 (X.N - 1)) hranks List.nodup_range'
    refine Triple.bind (Triple.conseq hcollect (fun w _ h => ?_) (fun _ _ _ h => h))
      (fun hosts => Triple.pure ?_)
    · obtain ⟨haccepted, hroot, -⟩ := h
      rw [hc] at haccepted
      exact ⟨haccepted, (hroot hc).1, fun i _ => (hroot hc).2 i⟩
    rintro rfl
    rw [show (List.range' 1 (X.N - 1)).map X.hostPortName = X.others from rfl, X.sendHosts_others]
    refine Triple.ret (fun w _ h => ?_)
    obtain ⟨haccepted, -⟩ := h
    rw [← hc] at haccepted
    exact haccepted.answering (fun hne => absurd hc hne)
  · rw [if_neg hc]
    have hsend : ∀ data, (waiting X).Triple (.acceptor c) (fun _ => True)
        (Acceptor.mpiSend data 0) (fun _ _ => True) := fun data =>
      Triple.more_op (fun _ _ _ _ _ => trivial) (fun _ _ _ => rfl) (fun _ _ _ _ _ _ _ _ => trivial)
    exact Triple.conseq (Triple.bind (hsend _) (fun _ => Triple.bind (hsend _)
      (fun _ => Triple.ret (fun _ _ _ => trivial)))) (fun _ _ _ => trivial) (fun _ _ _ h => h)

/-- The number of connectors is waited for when the name has been sent. -/
theorem accept_waits_waiting :
    (waiting X).Triple (.acceptor c) (acceptorPost X c .waiting)
      (Acceptor.accept c X.N (X.hostPortName c) .waiting) (settledAcceptor X c) := by
  have hbcast : (waiting X).Triple (.acceptor c) (acceptorPost X c .waiting)
      (Acceptor.mpiBcast (intBytes 0)) (fun _ => AnsweredAll X c) := by
    refine Triple.more_op ?_ ?_ ?_
    · exact fun w w' h hrely _ => acceptorPost_mono (l := .waiting) h hrely
    · exact fun w _ h _ => h.2.2
    · rintro w r w' - ⟨haccepted, hc, -, hsent⟩ hperform - -
      simp only [performAcceptor] at hperform
      rw [if_neg hc] at hperform
      obtain ⟨-, rfl⟩ := hperform
      exact (haccepted.answering (fun _ => hsent)).congr rfl rfl rfl
  simp only [Acceptor.accept]
  exact Triple.bind hbcast (fun r => Triple.ret (fun _ _ h => h))

theorem accept_waits_accepting (hosts : List Bytes) (st : Acceptor.Accepting) :
    (waiting X).Triple (.acceptor c)
      (fun w => acceptorPost X c (.accepting hosts st) w ∧ AnsweredAll X c w)
      (Acceptor.accept c X.N (X.hostPortName c) (.accepting hosts st)) (settledAcceptor X c) := by
  have hpre : ∀ w, acceptorPost X c (.accepting hosts st) w ∧ AnsweredAll X c w →
      ∃ peers, AcceptingAt X c hosts st peers w ∧ AnsweredAll X c w :=
    fun w h => h.1.imp (fun _ hat => ⟨hat, h.2⟩)
  refine Triple.conseq (Triple.exists (fun peers => ?_)) (fun w _ h => hpre w h) (fun _ _ _ h => h)
  simp only [Acceptor.accept]
  by_cases hdone : st.nconnected = st.nexpected.toInt
  · rw [if_neg (not_not.2 hdone)]
    have hfilled : ∀ w, Inv X w → AcceptingAt X c hosts st peers w ∧ AnsweredAll X c w →
        ∃ sockets, Acceptor.fillSockets st.remotes = some sockets ∧ AnsweredAll X c w := by
      rintro w hinv ⟨hat, hall⟩
      obtain ⟨sockets, hfill, -⟩ := hat.filled hinv hdone
      exact ⟨sockets, hfill, hall⟩
    refine Triple.conseq (Triple.exists (fun sockets => Triple.pure ?_)) hfilled (fun _ _ _ h => h)
    intro hfill
    rw [hfill]
    exact Triple.ret (fun _ _ h => h)
  · rw [if_pos hdone]
    by_cases hc : c.val = 0
    · rw [if_pos hc]
      exact Triple.bind (rootRound_waits hc hdone) (fun st' => Triple.ret (fun _ _ h => h))
    · rw [if_neg hc]
      exact Triple.bind (otherRound_waits hc hdone) (fun st' => Triple.ret (fun _ _ h => h))

/-- What an acceptor has done holds along its code. -/
theorem accept_waits (l : Acceptor.Label) :
    (waiting X).Triple (.acceptor c) (fun w => acceptorPost X c l w ∧ settledAcceptor X c l w)
      (Acceptor.accept c X.N (X.hostPortName c) l) (settledAcceptor X c) := by
  cases l with
  | start => exact Triple.conseq accept_waits_start (fun _ _ h => h.1) (fun _ _ _ h => h)
  | waiting => exact Triple.conseq accept_waits_waiting (fun _ _ h => h.1) (fun _ _ _ h => h)
  | accepting hosts st => exact accept_waits_accepting hosts st
  | accepted sockets => exact Triple.ret (fun _ _ h => h.2)

end Wiring

end LibIS
