import LibIS.Wiring.Outline

set_option autoImplicit false

/-! # Wiring two groups of ranks: the acceptors

Acceptor 0 collects the names of the others, and sends them to every connector that it accepts. Each
acceptor keeps a connection under the rank that has been announced on it, and ends with as many as
there are connectors. -/

open ByteCodec Prog ThreadSystem Proof

namespace LibIS

namespace Wiring

variable {X : Setup} {c : Fin X.N}

/-! ## What has been accepted -/

section Accepted

variable {w w' : World} {peers : List (ℕ × ℕ)} {s k : ℕ}

/-- The ranks that have been accepted are connectors, each once. -/
theorem Accepted.ranks {c : ℕ} (h : Accepted c peers w) (hinv : Inv X w) :
    (peers.map Prod.fst).Nodup ∧ ∀ p ∈ peers, p.1 < X.M := by
  have hids : (peers.map Prod.snd).Nodup := by
    rw [← List.nodup_reverse, ← h.taken]
    exact (hinv.nodup c).sublist (List.take_sublist _ _)
  constructor
  · refine (List.Nodup.of_map _ hids).map_on (fun p hp p' hp' hsame => ?_)
    obtain ⟨conn, hlinked⟩ := h.link p hp
    obtain ⟨conn', hlinked'⟩ := h.link p' hp'
    refine Prod.ext hsame ?_
    exact hinv.unique p.2 p'.2 conn conn' c hlinked.get hlinked'.get
      (hlinked.source.trans (hsame.trans hlinked'.source.symm)) hlinked.target hlinked'.target
  · intro p hp
    obtain ⟨conn, hlinked⟩ := h.link p hp
    exact hlinked.source ▸ (hinv.conn p.2 conn hlinked.get).source

/-- No connector is accepted twice. -/
theorem Accepted.subperm {c : ℕ} (h : Accepted c peers w) (hinv : Inv X w) :
    (peers.map Prod.fst).Subperm (List.range X.M) := by
  obtain ⟨hnodup, hlt⟩ := h.ranks hinv
  refine List.subperm_of_subset hnodup (fun s hs => ?_)
  obtain ⟨p, hp, rfl⟩ := List.mem_map.1 hs
  exact List.mem_range.2 (hlt p hp)

theorem Accepted.all {c : ℕ} (h : Accepted c peers w) (hinv : Inv X w) (hlen : peers.length = X.M)
    (hs : s < X.M) : s ∈ peers.map Prod.fst := by
  have hperm := (h.subperm hinv).perm_of_length_le
    (by rw [List.length_range, List.length_map, hlen])
  exact hperm.mem_iff.2 (List.mem_range.2 hs)

/-- What has been accepted is no longer queued. -/
theorem Accepted.not_queued {c : ℕ} (h : Accepted c peers w) (hinv : Inv X w)
    (hk : k ∈ peers.map Prod.snd) : k ∉ w.queued c := by
  have hsplit := List.take_append_drop (w.backlog c).taken (w.backlog c).sent
  have hnodup := hinv.nodup c
  rw [← hsplit, List.nodup_append] at hnodup
  intro hq
  refine hnodup.2.2 k ?_ k hq rfl
  rw [h.taken]
  exact List.mem_reverse.2 hk

/-- Acceptor `c` serves the connection that it has accepted last: `t` bytes have been received on
    it, and `sent` has been sent. -/
structure Serving (c : ℕ) (peers : List (ℕ × ℕ)) (casts : List Bytes) (s k t : ℕ) (sent : Bytes)
    (w : World) : Prop where
  accepted : Accepted c ((s, k) :: peers) w
  conn : ∃ conn : Conn, Linked w s c k conn ∧ conn.up.taken = t ∧ t ≤ conn.up.sent.length ∧
    conn.down.sent = sent
  cast : c = 0 → w.cast = casts

theorem Serving.mono {c t : ℕ} {casts : List Bytes} {sent : Bytes}
    (h : Serving c peers casts s k t sent w) (hrely : AcceptorRely c w w') :
    Serving c peers casts s k t sent w' := by
  obtain ⟨conn, hlinked, htaken, hle, hsent⟩ := h.conn
  obtain ⟨conn', hlinked', hfrom⟩ := hlinked.acceptor hrely
  refine ⟨h.accepted.mono hrely, ⟨conn', hlinked', hfrom.upTaken.trans htaken,
    hle.trans hfrom.upSent.length_le, hfrom.downSent.trans hsent⟩, fun hc => ?_⟩
  exact (hrely.cast hc).trans (h.cast hc)

theorem Serving.not_queued {c t : ℕ} {casts : List Bytes} {sent : Bytes}
    (h : Serving c peers casts s k t sent w) (hinv : Inv X w) : k ∉ w.queued c :=
  h.accepted.not_queued hinv (.head _)

theorem Accepted.mapConn {c : ℕ} (h : Accepted c peers w) {conn : Conn}
    (hk : w.conns[k]? = some conn) {f : Conn → Conn} (hsame : conn.SameEnds (f conn)) :
    Accepted c peers (w.mapConn k f) := by
  refine ⟨h.taken, h.count, fun p hp => ?_⟩
  obtain ⟨conn', hlinked⟩ := h.link p hp
  exact hlinked.forward hk hsame

end Accepted

/-! ## Operations -/

theorem serving_stable {peers : List (ℕ × ℕ)} {casts : List Bytes} {s k t : ℕ} {sent : Bytes} :
    (outline X).Stable (.acceptor c) (Serving c peers casts s k t sent) :=
  fun _ _ h hrely _ => h.mono hrely

theorem acceptSocket_triple {peers : List (ℕ × ℕ)} {casts : List Bytes} :
    (outline X).Triple (.acceptor c)
      (fun w => Accepted c peers w ∧ (c.val = 0 → w.cast = casts)) Acceptor.acceptSocket
      (fun fd w => ∃ s k : ℕ, fd = k ∧ Serving c peers casts s k 0 [] w) := by
  refine acceptor_op ?_ (fun _ _ _ => trivial) ?_
  · exact fun w w' h hrely _ => ⟨h.1.mono hrely, fun hc => (hrely.cast hc).trans (h.2 hc)⟩
  · rintro w r w' hinv ⟨haccepted, hcast⟩ ⟨k, hnext, rfl, rfl⟩
    have hsent : k ∈ (w.backlog c).sent := List.mem_of_getElem? hnext
    obtain ⟨conn, hget, htarget⟩ := hinv.queue c k hsent
    have hqueued : k ∈ w.queued c := by
      rw [World.queued, Channel.pending, List.drop_eq_getElem_cons
        (List.getElem?_eq_some_iff.1 hnext).1, (List.getElem?_eq_some_iff.1 hnext).2]
      exact .head _
    obtain ⟨htaken, hdown⟩ := hinv.fresh c k conn hqueued hget
    refine ⟨conn.source, k, rfl, ⟨?_, ?_, ?_⟩, ⟨conn, ⟨hget, rfl, htarget⟩, htaken, Nat.zero_le _,
      hdown⟩, hcast⟩
    · simp only [Function.update_self, Channel.pop_sent, Channel.pop_taken]
      rw [List.take_add_one, haccepted.taken, show (w.backlog c).sent[(w.backlog c).taken]? = _ from
        hnext, List.map_cons, List.reverse_cons]
      rfl
    · simp only [Function.update_self, Channel.pop_taken, haccepted.count, List.length_cons]
    · intro p hp
      rcases List.mem_cons.1 hp with rfl | hp
      · exact ⟨conn, hget, rfl, htarget⟩
      · obtain ⟨conn', hlinked⟩ := haccepted.link p hp
        exact ⟨conn', hlinked.get, hlinked.source, hlinked.target⟩

/-- What is received next of what connector `s` sends. -/
theorem acceptRecv_triple {peers : List (ℕ × ℕ)} {casts : List Bytes} {s k t : ℕ} {sent : Bytes}
    {size : ℕ} :
    (outline X).Triple (.acceptor c) (Serving c peers casts s k t sent)
      (Acceptor.recvSocket k size)
      (fun r w => (r = ((X.hello s c).drop t).take size ∧ r.length = size) ∧
        Serving c peers casts s k (t + size) sent w) := by
  refine acceptor_op serving_stable ?_ ?_
  · intro w hinv h
    obtain ⟨conn, hlinked, -⟩ := h.conn
    exact ⟨k, s, conn, rfl, hlinked, h.not_queued hinv⟩
  · rintro w r w' hinv h ⟨k', conn', hfd', hk', hsize, rfl, rfl⟩
    obtain ⟨conn, hlinked, htaken, hle, hsent⟩ := h.conn
    obtain rfl : k = k' := Int.ofNat.inj hfd'
    rw [hlinked.get] at hk'
    obtain rfl := Option.some.inj hk'
    subst htaken
    have hhello := (hinv.conn k conn hlinked.get).up c hlinked.target
    rw [hlinked.source] at hhello
    obtain ⟨htake, -⟩ := Channel.take_pending hhello hle hsize
    exact ⟨⟨htake, List.length_take_of_le hsize⟩,
      h.accepted.mapConn hlinked.get ⟨rfl, rfl, rfl, rfl⟩, ⟨conn.recvUp size,
        hlinked.mapConn ⟨rfl, rfl, rfl, rfl⟩, rfl, Channel.advance_taken_le hle hsize, hsent⟩,
      h.cast⟩

theorem recvInt_triple {peers : List (ℕ × ℕ)} {casts : List Bytes} {s k t : ℕ} {sent : Bytes}
    {old n : Int32} {rest : Bytes} (hn : (X.hello s c).drop t = intBytes n ++ rest) :
    (outline X).Triple (.acceptor c) (Serving c peers casts s k t sent)
      (Acceptor.recvInt k old)
      (fun r w => r = n ∧ Serving c peers casts s k (t + 4) sent w) := by
  unfold Acceptor.recvInt
  refine Triple.bind acceptRecv_triple (fun r => Triple.pure ?_)
  rintro ⟨rfl, -⟩
  have hmoved : ((X.hello s c).drop t).take 4 = intBytes n := by
    rw [hn]
    exact List.take_left' (intBytes_length _)
  have hnone : (intBytes old).drop (intBytes n).length = [] := by
    rw [List.drop_eq_nil_iff, intBytes_length, intBytes_length]
  rw [hmoved, hnone, List.append_nil, intOfBytes_intBytes]
  exact Triple.ret (fun _ _ h => ⟨rfl, h⟩)

theorem sendEach_triple {peers : List (ℕ × ℕ)} {casts : List Bytes} {s k t : ℕ} {sent : Bytes}
    (ms : List Bytes) (hms : sent ++ ms.flatten <+: X.answer c) :
    (outline X).Triple (.acceptor c) (Serving c peers casts s k t sent)
      (Acceptor.sendEach k ms)
      (fun _ w => Serving c peers casts s k t (sent ++ ms.flatten) w) := by
  induction ms generalizing sent with
  | nil =>
      rw [List.flatten_nil, List.append_nil]
      exact Triple.ret (fun _ _ h => h)
  | cons m ms ih =>
      rw [List.flatten_cons, ← List.append_assoc] at hms ⊢
      have hsend : (outline X).Triple (.acceptor c) (Serving c peers casts s k t sent)
          (Acceptor.sendSocket k m)
          (fun _ w => Serving c peers casts s k t (sent ++ m) w) := by
        refine acceptor_op serving_stable ?_ ?_
        · intro w hinv h
          obtain ⟨conn, hlinked, -, -, hsent⟩ := h.conn
          refine ⟨k, s, conn, rfl, hlinked, h.not_queued hinv, ?_⟩
          rw [hsent]
          exact (List.prefix_append _ _).trans hms
        · rintro w r w' - h ⟨k', hfd', rfl⟩
          obtain ⟨conn, hlinked, htaken, hle, hsent⟩ := h.conn
          obtain rfl : k = k' := Int.ofNat.inj hfd'
          refine ⟨h.accepted.mapConn hlinked.get ⟨rfl, rfl, rfl, rfl⟩, ⟨conn.sendDown m,
            hlinked.mapConn ⟨rfl, rfl, rfl, rfl⟩, htaken, hle, ?_⟩, h.cast⟩
          show conn.down.sent ++ m = _
          rw [hsent]
      unfold Acceptor.sendEach
      exact Triple.bind hsend (fun _ => ih hms)

/-! ## Rounds -/

theorem ofNat_eq_zero {s : ℕ} (hs : s < X.M) : Int32.ofNat s = 0 ↔ s = 0 := by
  constructor
  · intro hsame
    have hvalue := congrArg Int32.toInt hsame
    rw [Acceptor.toInt_rank (hs.trans X.M_lt)] at hvalue
    exact Int.ofNat.inj hvalue
  · rintro rfl
    rfl

theorem Locals.connect {c : ℕ} {hosts : List Bytes} {st : Acceptor.Accepting}
    {peers : List (ℕ × ℕ)} {s k : ℕ} (h : Locals X c hosts st peers)
    (hnodup : (((s, k) :: peers).map Prod.fst).Nodup) (hlt : ∀ p ∈ (s, k) :: peers, p.1 < X.M)
    {nexpected : Int32}
    (hnexpected : nexpected = if c = 0 ∧ s = 0 then Int32.ofNat X.M else st.nexpected) :
    Locals X c hosts { st.connect (Int32.ofNat s) k with nexpected := nexpected }
      ((s, k) :: peers) := by
  have hfst : (socketsOf peers).map Prod.fst = peers.map Prod.fst := by
    rw [socketsOf, List.map_map]
    rfl
  constructor
  · show st.nconnected + 1 = _
    rw [h.nconnected, List.length_cons]
    push_cast
    rfl
  · refine Acceptor.connect_remotes h.remotes ((hlt _ (.head _)).trans X.M_lt) ?_ ?_
    · intro p hp
      obtain ⟨p', hp', rfl⟩ := List.mem_map.1 hp
      exact (hlt p' (.tail _ hp')).trans X.M_lt
    · rw [hfst]
      exact (List.nodup_cons.1 hnodup).1
  · exact h.hosts
  · show nexpected = _
    rw [hnexpected, h.nexpected]
    by_cases hc : c = 0
    · by_cases hs : s = 0
      · rw [if_pos ⟨hc, hs⟩, if_pos hc, expectedAt, if_pos]
        rw [hs]
        exact .head _
      · rw [if_neg (fun hboth => hs hboth.2), if_pos hc, if_pos hc, expectedAt, expectedAt,
          List.map_cons]
        simp only [List.mem_cons, Ne.symm hs, false_or]
    · rw [if_neg (fun hboth => hc hboth.1), if_neg hc, if_neg hc]

/-- What acceptor 0 has broadcast stays the same without connector 0. -/
theorem castAt_cons {peers : List (ℕ × ℕ)} {s k : ℕ} (hs : s ≠ 0) :
    castAt X ((s, k) :: peers) = castAt X peers := by
  simp only [castAt, List.map_cons, List.mem_cons, Ne.symm hs, false_or]

/-- A connection is accepted, and its rank received. -/
theorem acceptRemote_triple {peers : List (ℕ × ℕ)} {hosts : List Bytes} {st : Acceptor.Accepting} :
    (outline X).Triple (.acceptor c) (AcceptingAt X c hosts st peers)
      (Acceptor.acceptRemote st)
      (fun r w => ∃ s k : ℕ, (r = ((k : ℤ), Int32.ofNat s, st.connect (Int32.ofNat s) k) ∧
          (((s, k) :: peers).map Prod.fst).Nodup ∧ ∀ p ∈ (s, k) :: peers, p.1 < X.M) ∧
        Serving c peers (castAt X peers) s k 4 [] w) := by
  unfold Acceptor.acceptRemote
  refine Triple.bind (Triple.conseq acceptSocket_triple (fun w _ h => ⟨h.accepted, h.cast⟩)
    (fun _ _ _ h => h)) (fun fd => ?_)
  refine Triple.exists (fun s => Triple.exists (fun k => Triple.pure ?_))
  rintro rfl
  have hrank : (X.hello s c).drop 0 = intBytes (Int32.ofNat s) ++ _ := rfl
  refine Triple.bind (recvInt_triple hrank) (fun r => Triple.pure ?_)
  rintro rfl
  exact Triple.ret (fun w hinv h => ⟨s, k, ⟨rfl, h.accepted.ranks hinv⟩, h⟩)

theorem bcast_triple (hc : c.val = 0) {peers : List (ℕ × ℕ)} {s k t : ℕ} {sent : Bytes} :
    (outline X).Triple (.acceptor c) (Serving c peers [] s k t sent)
      (Acceptor.mpiBcast (intBytes (Int32.ofNat X.M)))
      (fun _ => Serving c peers [intBytes (Int32.ofNat X.M)] s k t sent) := by
  refine acceptor_op serving_stable ?_ ?_
  · intro w _ h _
    rw [h.cast hc]
    exact List.prefix_refl _
  · intro w r w' _ h hperform
    simp only [performAcceptor] at hperform
    rw [if_pos hc] at hperform
    obtain ⟨-, rfl⟩ := hperform
    obtain ⟨conn, hlinked, hconn⟩ := h.conn
    refine ⟨⟨h.accepted.taken, h.accepted.count, fun p hp => ?_⟩,
      ⟨conn, ⟨hlinked.get, hlinked.source, hlinked.target⟩, hconn⟩, fun _ => ?_⟩
    · obtain ⟨conn', hlinked'⟩ := h.accepted.link p hp
      exact ⟨conn', hlinked'.get, hlinked'.source, hlinked'.target⟩
    · show w.cast ++ _ = _
      rw [h.cast hc]
      rfl

theorem rootRound_triple (hc : c.val = 0) {peers : List (ℕ × ℕ)} {hosts : List Bytes}
    {st : Acceptor.Accepting} :
    (outline X).Triple (.acceptor c) (AcceptingAt X c hosts st peers)
      (Acceptor.rootRound hosts st)
      (fun st' w => ∃ peers', AcceptingAt X c hosts st' peers' w) := by
  have hpre : ∀ w, AcceptingAt X c hosts st peers w →
      Locals X c hosts st peers ∧ AcceptingAt X c hosts st peers w := fun w h => ⟨h.locals, h⟩
  refine Triple.conseq (Triple.pure ?_) (fun w _ h => hpre w h) (fun _ _ _ h => h)
  intro hlocals
  have hhosts : hosts = X.messages := hlocals.hosts hc
  have hanswer : [] ++ hosts.flatten <+: X.answer c := by
    rw [Setup.answer, if_pos hc, hhosts, List.nil_append]
  unfold Acceptor.rootRound
  refine Triple.bind acceptRemote_triple (fun r => ?_)
  refine Triple.exists (fun s => Triple.exists (fun k => Triple.pure ?_))
  rintro ⟨rfl, hnodup, hlt⟩
  have hs : s < X.M := hlt (s, k) (.head _)
  by_cases hzero : s = 0
  · -- connector 0 tells how many connectors there are
    subst hzero
    have hnone : castAt X peers = [] := if_neg (List.nodup_cons.1 hnodup).1
    have hsize : (X.hello 0 c).drop 4 = intBytes (Int32.ofNat X.M) ++ [] := by
      rw [Setup.hello, if_pos ⟨rfl, hc⟩, List.append_nil]
      exact List.drop_left' (intBytes_length _)
    have hif : Int32.ofNat 0 = 0 := rfl
    simp only [hif, if_true]
    rw [hnone]
    refine Triple.bind (recvInt_triple hsize) (fun r => Triple.pure ?_)
    rintro rfl
    refine Triple.bind (bcast_triple hc) (fun _ => ?_)
    refine Triple.bind (sendEach_triple hosts hanswer) (fun _ => Triple.ret (fun w _ h => ?_))
    refine ⟨(0, k) :: peers, hlocals.connect hnodup hlt ?_, h.accepted, fun hc' => ?_⟩
    · rw [if_pos ⟨hc, rfl⟩]
    · rw [h.cast hc', castAt, if_pos (.head _)]
  · have hif : Int32.ofNat s ≠ 0 := fun h => hzero ((ofNat_eq_zero hs).1 h)
    simp only [hif, if_false]
    refine Triple.bind (sendEach_triple hosts hanswer) (fun _ => Triple.ret (fun w _ h => ?_))
    refine ⟨(s, k) :: peers, hlocals.connect hnodup hlt ?_, h.accepted, fun hc' => ?_⟩
    · rw [if_neg (fun hboth => hzero hboth.2)]
    · rw [h.cast hc', castAt_cons hzero]

theorem otherRound_triple (hc : c.val ≠ 0) {peers : List (ℕ × ℕ)} {hosts : List Bytes}
    {st : Acceptor.Accepting} :
    (outline X).Triple (.acceptor c) (AcceptingAt X c hosts st peers)
      (Acceptor.otherRound st)
      (fun st' w => ∃ peers', AcceptingAt X c hosts st' peers' w) := by
  have hpre : ∀ w, AcceptingAt X c hosts st peers w →
      Locals X c hosts st peers ∧ AcceptingAt X c hosts st peers w := fun w h => ⟨h.locals, h⟩
  refine Triple.conseq (Triple.pure ?_) (fun w _ h => hpre w h) (fun _ _ _ h => h)
  intro hlocals
  unfold Acceptor.otherRound
  refine Triple.bind acceptRemote_triple (fun r => ?_)
  refine Triple.exists (fun s => Triple.exists (fun k => Triple.pure ?_))
  rintro ⟨rfl, hnodup, hlt⟩
  refine Triple.ret (fun w _ h => ?_)
  refine ⟨(s, k) :: peers, hlocals.connect hnodup hlt ?_, h.accepted, fun hc' => absurd hc' hc⟩
  rw [if_neg (fun hboth => hc hboth.1)]

/-! ## Before the loop -/

/-- Acceptor 0 has not taken the mail from `ranks`. -/
def Collecting (ranks : List ℕ) (w : World) : Prop :=
  Accepted 0 [] w ∧ w.cast = [] ∧ ∀ i ∈ ranks, (w.mail i).taken = 0

/-- The next part of what acceptor `i` sends to acceptor 0. -/
theorem mpiRecv_triple (hc : c.val = 0) {ranks : List ℕ} {i t size : ℕ} (hi : i < X.N)
    (hnot : i ∉ ranks) :
    (outline X).Triple (.acceptor c) (fun w => Collecting ranks w ∧ (w.mail i).taken = t)
      (Acceptor.mpiRecv size i)
      (fun r w => (X.letter i)[t]? = some r ∧ Collecting ranks w ∧ (w.mail i).taken = t + 1) := by
  refine acceptor_op ?_ (fun _ _ _ => hc) ?_
  · rintro w w' ⟨⟨haccepted, hcast, hmail⟩, htaken⟩ (hrely : AcceptorRely c w w') -
    rw [hc] at hrely
    exact ⟨⟨haccepted.mono hrely, (hrely.cast rfl).trans hcast,
      fun i' hi' => (hrely.mail rfl i').trans (hmail i' hi')⟩, (hrely.mail rfl i).trans htaken⟩
  · rintro w r w' hinv ⟨⟨haccepted, hcast, hmail⟩, htaken⟩ ⟨hnext, -, rfl⟩
    rw [Channel.next?, htaken] at hnext
    refine ⟨(hinv.mail i hi).getElem?_eq_some hnext, ⟨⟨haccepted.taken, haccepted.count,
      fun p hp => absurd hp (by simp)⟩, hcast, fun i' hi' => ?_⟩, ?_⟩
    · have hne : i' ≠ i := fun h => hnot (h ▸ hi')
      simp only [Function.update_of_ne hne]
      exact hmail i' hi'
    · simp only [Function.update_self, Channel.pop_taken, htaken]

/-- The names of the other acceptors are collected. -/
theorem collectHosts_triple (hc : c.val = 0) (ranks : List ℕ) (hlt : ∀ i ∈ ranks, i < X.N)
    (hnodup : ranks.Nodup) :
    (outline X).Triple (.acceptor c) (Collecting ranks) (Acceptor.collectHosts ranks)
      (fun hosts w => hosts = ranks.map X.hostPortName ∧ Collecting [] w) := by
  induction ranks with
  | nil => exact Triple.ret (fun _ _ h => ⟨rfl, h⟩)
  | cons i ranks ih =>
      obtain ⟨hnot, hrest⟩ := List.nodup_cons.1 hnodup
      have hi : i < X.N := hlt i (.head _)
      have hname := X.name_length hi
      have hsize : leValue (leBytes 8 (X.hostPortName i).bytes.length) =
          (X.hostPortName i).bytes.length := leValue_leBytes_of_lt _ _ (by norm_num; omega)
      unfold Acceptor.collectHosts
      refine Triple.bind (Triple.conseq (mpiRecv_triple (t := 0) hc hi hnot) (fun w _ h => ?_)
        (fun _ _ _ h => h)) (fun size => Triple.pure ?_)
      · exact ⟨⟨h.1, h.2.1, fun i' hi' => h.2.2 i' (.tail _ hi')⟩, h.2.2 i (.head _)⟩
      intro hget
      obtain rfl : leBytes 8 (X.hostPortName i).bytes.length = size := Option.some.inj hget
      rw [hsize]
      refine Triple.bind (mpiRecv_triple hc hi hnot) (fun buf => Triple.pure ?_)
      intro hget'
      obtain rfl : (X.hostPortName i).bytes = buf := Option.some.inj hget'
      rw [X.name_takeWhile hi, StdString.ofBytes_bytes]
      simp only [Acceptor.ofExcept, pure_eq, ret_bind]
      refine Triple.bind (Triple.conseq (ih (fun i' hi' => hlt i' (.tail _ hi')) hrest)
        (fun _ _ h => h.1) (fun _ _ _ h => h)) (fun hosts => Triple.pure ?_)
      rintro rfl
      exact Triple.ret (fun _ _ h => ⟨rfl, h⟩)

theorem mpiSend_triple (hc : c.val ≠ 0) (sent : List Bytes) {data : Bytes}
    (hdata : sent ++ [data] <+: X.letter c) :
    (outline X).Triple (.acceptor c)
      (fun w => Accepted c [] w ∧ (w.mail c).sent = sent ∧ w.heard c = 0)
      (Acceptor.mpiSend data 0)
      (fun _ w => Accepted c [] w ∧ (w.mail c).sent = sent ++ [data] ∧ w.heard c = 0) := by
  refine acceptor_op ?_ ?_ ?_
  · rintro w w' ⟨haccepted, hsent, hheard⟩ hrely -
    exact ⟨haccepted.mono hrely, (hrely.letter hc).trans hsent, (hrely.heard hc).trans hheard⟩
  · rintro w - ⟨-, hsent, -⟩
    exact ⟨hc, by rw [hsent]; exact hdata⟩
  · rintro w r w' - ⟨haccepted, hsent, hheard⟩ ⟨-, rfl⟩
    refine ⟨⟨haccepted.taken, haccepted.count, fun p hp => absurd hp (by simp)⟩, ?_, hheard⟩
    simp only [Function.update_self, Channel.push_sent, hsent]

theorem accept_start :
    (outline X).Triple (.acceptor c) (acceptorPost X c .start)
      (Acceptor.accept c X.N (X.hostPortName c) .start) (acceptorPost X c) := by
  simp only [Acceptor.accept]
  by_cases hc : c.val = 0
  · rw [if_pos hc]
    have hlt : ∀ i ∈ List.range' 1 (X.N - 1), i < X.N := by
      intro i hi
      have hrange := List.mem_range'_1.1 hi
      have hN := X.one_le_N
      omega
    have hcollect := collectHosts_triple hc (List.range' 1 (X.N - 1)) hlt List.nodup_range'
    refine Triple.bind (Triple.conseq hcollect (fun w _ h => ?_) (fun _ _ _ h => h))
      (fun hosts => Triple.pure ?_)
    · obtain ⟨haccepted, hroot, -⟩ := h
      rw [hc] at haccepted
      exact ⟨haccepted, (hroot hc).1, fun i _ => (hroot hc).2 i⟩
    rintro rfl
    rw [show (List.range' 1 (X.N - 1)).map X.hostPortName = X.others from rfl, X.sendHosts_others]
    refine Triple.ret (fun w _ h => ?_)
    obtain ⟨haccepted, hcast, -⟩ := h
    rw [← hc] at haccepted
    refine ⟨[], ⟨rfl, rfl, fun _ => rfl, ?_⟩, haccepted, fun _ => hcast⟩
    rw [if_pos hc]
    rfl
  · rw [if_neg hc]
    refine Triple.bind (Triple.conseq (mpiSend_triple hc [] (List.prefix_append _ _))
      (fun w _ h => ⟨h.1, (h.2.2 hc).1, (h.2.2 hc).2⟩) (fun _ _ _ h => h)) (fun _ => ?_)
    refine Triple.bind (mpiSend_triple hc [_] (List.prefix_refl _)) (fun _ => Triple.ret ?_)
    exact fun w _ h => ⟨h.1, hc, h.2.2, h.2.1⟩

theorem accept_waiting :
    (outline X).Triple (.acceptor c) (acceptorPost X c .waiting)
      (Acceptor.accept c X.N (X.hostPortName c) .waiting) (acceptorPost X c) := by
  have hbcast : (outline X).Triple (.acceptor c) (acceptorPost X c .waiting)
      (Acceptor.mpiBcast (intBytes 0))
      (fun r w => r = intBytes (Int32.ofNat X.M) ∧ Accepted c [] w ∧ c.val ≠ 0) := by
    refine acceptor_op ?_ ?_ ?_
    · exact fun w w' h hrely _ => acceptorPost_mono (l := .waiting) h hrely
    · exact fun w _ h hzero => absurd hzero h.2.1
    · rintro w r w' hinv ⟨haccepted, hc, hheard, -⟩ hperform
      simp only [performAcceptor] at hperform
      rw [if_neg hc] at hperform
      obtain ⟨hget, rfl⟩ := hperform
      rw [hheard] at hget
      refine ⟨?_, ⟨haccepted.taken, haccepted.count, fun p hp => absurd hp (by simp)⟩, hc⟩
      exact (Option.some.inj (hinv.cast.getElem?_eq_some hget)).symm
  simp only [Acceptor.accept]
  refine Triple.bind hbcast (fun r => Triple.pure ?_)
  rintro rfl
  refine Triple.ret (fun w _ h => ?_)
  refine ⟨[], ⟨rfl, rfl, fun hzero => absurd hzero h.2, ?_⟩, h.1, fun hzero => absurd hzero h.2⟩
  rw [if_neg h.2, intOfBytes_intBytes]

/-! ## The end of the loop -/

/-- The loop ends when all connectors have been accepted. -/
theorem Locals.all {c : ℕ} {hosts : List Bytes} {st : Acceptor.Accepting} {peers : List (ℕ × ℕ)}
    (h : Locals X c hosts st peers) (hdone : st.nconnected = st.nexpected.toInt) :
    peers.length = X.M ∧ (c = 0 → castAt X peers = [intBytes (Int32.ofNat X.M)]) := by
  rw [h.nconnected, h.nexpected] at hdone
  by_cases hc : c = 0
  · rw [if_pos hc, expectedAt] at hdone
    by_cases hmem : 0 ∈ peers.map Prod.fst
    · rw [if_pos hmem, Acceptor.toInt_rank X.M_lt] at hdone
      exact ⟨Int.ofNat.inj hdone, fun _ => if_pos hmem⟩
    · rw [if_neg hmem] at hdone
      have hminus : (-1 : Int32).toInt = -1 := by decide
      rw [hminus] at hdone
      omega
  · rw [if_neg hc, Acceptor.toInt_rank X.M_lt] at hdone
    exact ⟨Int.ofNat.inj hdone, fun hzero => absurd hzero hc⟩

/-- The vector is filled with the connections of all connectors. -/
theorem AcceptingAt.filled {c : ℕ} {hosts : List Bytes} {st : Acceptor.Accepting}
    {peers : List (ℕ × ℕ)} {w : World} (h : AcceptingAt X c hosts st peers w) (hinv : Inv X w)
    (hdone : st.nconnected = st.nexpected.toInt) :
    ∃ sockets, Acceptor.fillSockets st.remotes = some sockets ∧ Filled X c sockets w := by
  obtain ⟨hlen, hcast⟩ := h.locals.all hdone
  obtain ⟨hnodup, hlt⟩ := h.accepted.ranks hinv
  have hfst : (socketsOf peers).map Prod.fst = peers.map Prod.fst := by
    rw [socketsOf, List.map_map]
    rfl
  have hsize : (socketsOf peers).length = X.M := by rw [socketsOf, List.length_map, hlen]
  have hbound : ∀ p ∈ socketsOf peers, p.1 < (socketsOf peers).length := by
    intro p hp
    obtain ⟨p', hp', rfl⟩ := List.mem_map.1 hp
    rw [hsize]
    exact hlt p' hp'
  obtain ⟨sockets, hfill, hsockets, hget⟩ := Acceptor.fillSockets_eq_some hbound
    (by rw [hsize]; exact X.M_lt) (by rw [hfst]; exact hnodup)
  refine ⟨sockets, h.locals.remotes ▸ hfill, hsockets.trans hsize, h.accepted.count.trans hlen, ?_,
    fun hc => (h.cast hc).trans (hcast hc)⟩
  intro s hs
  obtain ⟨p, hp, rfl⟩ := List.mem_map.1 (h.accepted.all hinv hlen hs)
  obtain ⟨conn, hlinked⟩ := h.accepted.link p hp
  exact ⟨p.2, conn, hget _ (List.mem_map_of_mem hp), hlinked⟩

theorem accept_accepting (hosts : List Bytes) (st : Acceptor.Accepting) :
    (outline X).Triple (.acceptor c) (acceptorPost X c (.accepting hosts st))
      (Acceptor.accept c X.N (X.hostPortName c) (.accepting hosts st)) (acceptorPost X c) := by
  refine Triple.exists (fun peers => ?_)
  simp only [Acceptor.accept]
  by_cases hdone : st.nconnected = st.nexpected.toInt
  · rw [if_neg (not_not.2 hdone)]
    have hpre : ∀ w, Inv X w → AcceptingAt X c hosts st peers w →
        ∃ sockets, Acceptor.fillSockets st.remotes = some sockets ∧ Filled X c sockets w :=
      fun w hinv h => h.filled hinv hdone
    refine Triple.conseq (Triple.exists (fun sockets => Triple.pure ?_)) hpre (fun _ _ _ h => h)
    intro hfill
    rw [hfill]
    exact Triple.ret (fun _ _ h => h)
  · rw [if_pos hdone]
    by_cases hc : c.val = 0
    · rw [if_pos hc]
      exact Triple.bind (rootRound_triple hc) (fun st' => Triple.ret (fun _ _ h => h))
    · rw [if_neg hc]
      exact Triple.bind (otherRound_triple hc) (fun st' => Triple.ret (fun _ _ h => h))

/-- What an acceptor knows holds along its code. -/
theorem accept_triple (l : Acceptor.Label) :
    (outline X).Triple (.acceptor c) (acceptorPost X c l)
      (Acceptor.accept c X.N (X.hostPortName c) l) (acceptorPost X c) := by
  cases l with
  | start => exact accept_start
  | waiting => exact accept_waiting
  | accepting hosts st => exact accept_accepting hosts st
  | accepted sockets => exact Triple.ret (fun _ _ h => h)

end Wiring

end LibIS
