import LibIS.InterComm.Accept

set_option autoImplicit false

/-! # Failed connections at an acceptor (`intercomm.cpp`, `SocketInterComm::accept`)

An `::accept` that fails and a connection that is closed before it has announced its rank count as
connections, from rank 0. An acceptor ends with the sockets of all connectors exactly when none of
these comes before the last connector (`accept_tolerates_iff`). -/

open ByteCodec Prog

namespace LibIS

namespace Acceptor

/-- What comes out of an `::accept`: a connector, a failure, or a connection that is closed when
    `sent` has been sent. -/
inductive Arrival where
  | connector (rank : ℕ)
  | failed
  | closed (sent : Bytes) (short : sent.length < 4)

namespace Arrival

variable (M : ℕ)

/-- The bytes there are to receive: its rank, and from rank 0 the number of connectors. -/
def stream : Arrival → Bytes
  | .connector r => intBytes (Int32.ofNat r) ++ if r = 0 then intBytes (Int32.ofNat M) else []
  | .failed => []
  | .closed sent _ => sent

/-- The rank of a connector. -/
def rank? : Arrival → Option ℕ
  | .connector r => some r
  | _ => none

/-- What the next `int` is that is received into `old`. -/
def received (bs : Bytes) (old : Int32) : Int32 :=
  intOfBytes (bs.take 4 ++ (intBytes old).drop (bs.take 4).length)

/-- The rank that it is taken to announce. -/
def announced (e : Arrival) : Int32 :=
  received (e.stream M) 0

/-- The number of connectors that it is taken to tell. -/
def expected (e : Arrival) (old : Int32) : Int32 :=
  received ((e.stream M).drop 4) old

end Arrival

/-- The world of one acceptor: what is still to arrive, the connections that have been accepted with
    what is left to receive from each, and what has been broadcast. -/
structure Queue where
  rest : List Arrival
  conns : List (Arrival × Bytes)
  cast : List Bytes

/-- Its answers. The descriptors of the connections are counted from 0; nothing is received from the
    descriptor -1. -/
def Queue.answer (M : ℕ) : (o : AcceptOp) → Queue → Option (o.Resp × Queue)
  | .accept, w =>
      match w.rest with
      | [] => none
      | .failed :: es => some (-1, { w with rest := es })
      | e :: es => some (w.conns.length, { w with
          rest := es
          conns := w.conns ++ [(e, e.stream M)] })
  | .recv fd size, w =>
      if fd < 0 then
        some ([], w)
      else
        match w.conns[fd.toNat]? with
        | none => none
        | some (e, unread) => some (unread.take size, { w with
            conns := w.conns.set fd.toNat (e, unread.drop size) })
  | .bcast buf, w => some (buf, { w with cast := w.cast ++ [buf] })
  | .send _ _, w => some ((), w)
  | _, _ => none

section Round

variable {M : ℕ} {w : Queue} {st : Accepting} {e : Arrival}

theorem set_last {α : Type} (xs : List α) (x y : α) : (xs ++ [x]).set xs.length y = xs ++ [y] := by
  rw [List.set_append_right _ _ (le_refl _), Nat.sub_self]
  rfl

theorem run_recvInt_last {cs : List (Arrival × Bytes)} {unread : Bytes}
    (h : w.conns = cs ++ [(e, unread)]) (old : Int32) :
    (recvInt cs.length old).run (Queue.answer M) w =
      ({ w with conns := cs ++ [(e, unread.drop 4)] }, some (Arrival.received unread old)) := by
  have hrecv : Queue.answer M (.recv cs.length 4) w =
      some (unread.take 4, { w with conns := cs ++ [(e, unread.drop 4)] }) := by
    simp only [Queue.answer]
    rw [if_neg (by omega), Int.toNat_natCast, h, List.getElem?_concat_length]
    simp only [set_last]
  unfold recvInt
  rw [op_bind, run_vis hrecv]
  rfl

theorem run_recvInt_failed (old : Int32) :
    (recvInt (-1) old).run (Queue.answer M) w = (w, some old) := by
  have hold : (intBytes old).drop ([] : Bytes).length = intBytes old := rfl
  unfold recvInt
  have hrecv : Queue.answer M (.recv (-1) 4) w = some ([], w) := rfl
  rw [op_bind, run_vis hrecv]
  simp only [List.nil_append, hold, intOfBytes_intBytes]
  rfl

theorem received_nil (old : Int32) : Arrival.received [] old = old := by
  have hold : (intBytes old).drop ([] : Bytes).length = intBytes old := rfl
  rw [Arrival.received, List.take_nil, List.nil_append, hold, intOfBytes_intBytes]

theorem run_acceptRemote (M : ℕ) (st : Accepting) {es : List Arrival} (h : w.rest = e :: es) :
    ∃ w' fd, (acceptRemote st).run (Queue.answer M) w =
        (w', some (fd, e.announced M, st.connect (e.announced M) fd)) ∧
      w'.rest = es ∧ w'.cast = w.cast ∧
      ((e = .failed ∧ fd = -1 ∧ w'.conns = w.conns) ∨
        (e ≠ .failed ∧ fd = w.conns.length ∧
          w'.conns = w.conns ++ [(e, (e.stream M).drop 4)])) := by
  unfold acceptRemote
  by_cases hfailed : e = .failed
  · subst hfailed
    have haccept : Queue.answer M .accept w = some (-1, { w with rest := es }) := by
      simp only [Queue.answer, h]
    rw [op_bind, run_vis haccept, run_bind (run_recvInt_failed 0)]
    have hrank : (0 : Int32) = Arrival.announced M .failed := (received_nil 0).symm
    rw [hrank]
    exact ⟨_, -1, rfl, rfl, rfl, .inl ⟨rfl, rfl, rfl⟩⟩
  · have haccept : Queue.answer M .accept w = some ((w.conns.length : ℤ), { w with
        rest := es
        conns := w.conns ++ [(e, e.stream M)] }) := by
      cases e with
      | failed => exact absurd rfl hfailed
      | connector r => simp only [Queue.answer, h]
      | closed sent short => simp only [Queue.answer, h]
    rw [op_bind, run_vis haccept, run_bind (run_recvInt_last rfl 0)]
    exact ⟨_, w.conns.length, rfl, rfl, rfl, .inr ⟨hfailed, rfl, rfl⟩⟩

theorem run_sendEach (fd : ℤ) (ms : List Bytes) (w : Queue) :
    (sendEach fd ms).run (Queue.answer M) w = (w, some ()) := by
  induction ms with
  | nil => rfl
  | cons m ms ih =>
      unfold sendEach
      rw [op_bind, run_vis rfl]
      exact ih

/-- The connections that have been accepted. -/
def Queue.accepted (w : Queue) : List Arrival :=
  w.conns.map Prod.fst

/-- What a round makes of the arrival `e`, which gets the descriptor `fd`. -/
structure Served (M : ℕ) (w : Queue) (e : Arrival) (es : List Arrival) (fd : ℤ) (w' : Queue) :
    Prop where
  rest : w'.rest = es
  conns : (e = .failed ∧ fd = -1 ∧ w'.accepted = w.accepted) ∨
    (e ≠ .failed ∧ fd = w.accepted.length ∧ w'.accepted = w.accepted ++ [e])

/-- The locals after a round, on rank 0 or on another rank. -/
def Accepting.serve (M rank : ℕ) (st : Accepting) (e : Arrival) (fd : ℤ) : Accepting :=
  { st.connect (e.announced M) fd with
    nexpected := if rank = 0 ∧ e.announced M = 0 then e.expected M st.nexpected else st.nexpected }

/-- What a round broadcasts. -/
def castOf (M rank : ℕ) (st : Accepting) (e : Arrival) : List Bytes :=
  if rank = 0 ∧ e.announced M = 0 then [intBytes (e.expected M st.nexpected)] else []

theorem run_rootRound (M : ℕ) (st : Accepting) (hosts : List Bytes) {es : List Arrival}
    (h : w.rest = e :: es) :
    ∃ w' fd, (rootRound hosts st).run (Queue.answer M) w = (w', some (st.serve M 0 e fd)) ∧
      w'.cast = w.cast ++ castOf M 0 st e ∧ Served M w e es fd w' := by
  obtain ⟨w₁, fd, hremote, hrest, hcast, hconns⟩ := run_acceptRemote M st h
  unfold rootRound
  rw [run_bind hremote]
  have hserved : Served M w e es fd w₁ := by
    refine ⟨hrest, ?_⟩
    rcases hconns with ⟨he, hfd, hsame⟩ | ⟨he, hfd, hadd⟩
    · exact .inl ⟨he, hfd, congrArg (List.map Prod.fst) hsame⟩
    · refine .inr ⟨he, by rw [hfd, Queue.accepted, List.length_map], ?_⟩
      rw [Queue.accepted, hadd, List.map_append]
      rfl
  by_cases hzero : e.announced M = 0
  · -- the number of connectors is received and broadcast
    obtain ⟨w₂, hexpected, hrest₂, hcast₂, hconns₂⟩ : ∃ w₂,
        (recvInt fd st.nexpected).run (Queue.answer M) w₁ =
          (w₂, some (e.expected M st.nexpected)) ∧ w₂.rest = w₁.rest ∧ w₂.cast = w₁.cast ∧
          w₂.accepted = w₁.accepted := by
      rcases hconns with ⟨rfl, rfl, -⟩ | ⟨-, rfl, hadd⟩
      · have hold : Arrival.expected M .failed st.nexpected = st.nexpected := received_nil _
        rw [hold]
        exact ⟨w₁, run_recvInt_failed _, rfl, rfl, rfl⟩
      · refine ⟨_, run_recvInt_last hadd _, rfl, rfl, ?_⟩
        rw [Queue.accepted, Queue.accepted, hadd, List.map_append, List.map_append]
        rfl
    have hcasts : Queue.answer M (.bcast (intBytes (e.expected M st.nexpected))) w₂ =
        some (intBytes (e.expected M st.nexpected), { w₂ with
          cast := w₂.cast ++ [intBytes (e.expected M st.nexpected)] }) := rfl
    refine ⟨{ w₂ with cast := w₂.cast ++ [intBytes (e.expected M st.nexpected)] }, fd, ?_, ?_, ?_⟩
    · refine (congrArg (fun p => Prog.run (Queue.answer M) p w₁) (if_pos hzero)).trans ?_
      refine (run_bind hexpected).trans ?_
      rw [op_bind, run_vis hcasts, run_bind (run_sendEach _ _ _)]
      rw [Accepting.serve, if_pos ⟨rfl, hzero⟩]
      rfl
    · rw [castOf, if_pos ⟨rfl, hzero⟩, hcast₂, hcast]
    · exact ⟨hrest₂.trans hserved.rest, by
        show (_ ∧ _ ∧ w₂.accepted = _) ∨ (_ ∧ _ ∧ w₂.accepted = _)
        rw [hconns₂]
        exact hserved.conns⟩
  · refine ⟨w₁, fd, ?_, ?_, hserved⟩
    · refine (congrArg (fun p => Prog.run (Queue.answer M) p w₁) (if_neg hzero)).trans ?_
      refine (run_bind (run_sendEach _ _ _)).trans ?_
      rw [Accepting.serve, if_neg (fun h => hzero h.2)]
      rfl
    · rw [castOf, if_neg (fun h => hzero h.2), hcast, List.append_nil]

theorem run_otherRound (M : ℕ) (st : Accepting) {rank : ℕ} (hrank : rank ≠ 0)
    {es : List Arrival} (h : w.rest = e :: es) :
    ∃ w' fd, (otherRound st).run (Queue.answer M) w = (w', some (st.serve M rank e fd)) ∧
      w'.cast = w.cast ++ castOf M rank st e ∧ Served M w e es fd w' := by
  obtain ⟨w₁, fd, hremote, hrest, hcast, hconns⟩ := run_acceptRemote M st h
  unfold otherRound
  rw [run_bind hremote]
  refine ⟨w₁, fd, ?_, ?_, hrest, ?_⟩
  · rw [Accepting.serve, if_neg (fun h => hrank h.1)]
    rfl
  · rw [castOf, if_neg (fun h => hrank h.1), hcast, List.append_nil]
  · rcases hconns with ⟨he, hfd, hsame⟩ | ⟨he, hfd, hadd⟩
    · exact .inl ⟨he, hfd, congrArg (List.map Prod.fst) hsame⟩
    · refine .inr ⟨he, by rw [hfd, Queue.accepted, List.length_map], ?_⟩
      rw [Queue.accepted, hadd, List.map_append]
      rfl

theorem run_round (M rank worldSize : ℕ) (name : StdString) (hosts : List Bytes)
    {es : List Arrival} (hne : st.nconnected ≠ st.nexpected.toInt)
    (h : w.rest = e :: es) :
    ∃ w' fd, (accept rank worldSize name (.accepting hosts st)).run (Queue.answer M) w =
        (w', some (.accepting hosts (st.serve M rank e fd))) ∧
      w'.cast = w.cast ++ castOf M rank st e ∧ Served M w e es fd w' := by
  simp only [accept]
  rw [if_pos hne]
  by_cases hrank : rank = 0
  · subst hrank
    obtain ⟨w', fd, hrun, hrest⟩ := run_rootRound M st hosts h
    rw [if_pos rfl, run_bind hrun]
    exact ⟨w', fd, rfl, hrest⟩
  · obtain ⟨w', fd, hrun, hrest⟩ := run_otherRound M st hrank h
    rw [if_neg hrank, run_bind hrun]
    exact ⟨w', fd, rfl, hrest⟩

/-- When nothing arrives, `accept` blocks. -/
theorem run_blocked (M rank worldSize : ℕ) (name : StdString) (hosts : List Bytes)
    (hne : st.nconnected ≠ st.nexpected.toInt) (h : w.rest = []) :
    (accept rank worldSize name (.accepting hosts st)).run (Queue.answer M) w = (w, none) := by
  have hblocked : Queue.answer M .accept w = none := by
    simp only [Queue.answer, h]
  have hremote : (acceptRemote st).run (Queue.answer M) w = (w, none) := by
    unfold acceptRemote
    rw [op_bind, run_vis_none hblocked]
  simp only [accept]
  rw [if_pos hne]
  by_cases hrank : rank = 0
  · have hround : (rootRound hosts st).run (Queue.answer M) w = (w, none) := by
      unfold rootRound
      rw [run_bind_none hremote]
    rw [if_pos hrank, run_bind_none hround]
  · have hround : (otherRound st).run (Queue.answer M) w = (w, none) := by
      unfold otherRound
      rw [run_bind_none hremote]
    rw [if_neg hrank, run_bind_none hround]

end Round

/-! ## What arrivals announce -/

section Announced

variable {M r : ℕ} {old : Int32}

theorem announced_connector : Arrival.announced M (.connector r) = Int32.ofNat r := by
  have htake : (Arrival.stream M (.connector r)).take 4 = intBytes (Int32.ofNat r) :=
    List.take_left' (intBytes_length _)
  have hdrop : (intBytes (0 : Int32)).drop (intBytes (Int32.ofNat r)).length = [] := by
    rw [List.drop_eq_nil_iff, intBytes_length, intBytes_length]
  rw [Arrival.announced, Arrival.received, htake, hdrop, List.append_nil, intOfBytes_intBytes]

theorem expected_connector_zero : Arrival.expected M (.connector 0) old = Int32.ofNat M := by
  have hrest : (Arrival.stream M (.connector 0)).drop 4 = intBytes (Int32.ofNat M) :=
    List.drop_left' (intBytes_length _)
  have htake : (intBytes (Int32.ofNat M)).take 4 = intBytes (Int32.ofNat M) :=
    List.take_of_length_le (intBytes_length _).le
  have hdrop : (intBytes old).drop (intBytes (Int32.ofNat M)).length = [] := by
    rw [List.drop_eq_nil_iff, intBytes_length, intBytes_length]
  rw [Arrival.expected, Arrival.received, hrest, htake, hdrop, List.append_nil, intOfBytes_intBytes]

/-- Only remote rank 0 tells how many connectors there are. -/
theorem expected_of_announced (e : Arrival) (old : Int32) (hlt : ∀ r, e = .connector r → r < 2 ^ 31)
    (h : e.announced M = 0) : e.expected M old = old ∨ e.expected M old = Int32.ofNat M := by
  cases e with
  | connector r =>
      rw [announced_connector] at h
      have hzero : r = 0 := by
        have hvalue := congrArg Int32.toInt h
        rw [toInt_rank (hlt r rfl)] at hvalue
        exact Int.ofNat.inj hvalue
      rw [hzero]
      exact .inr expected_connector_zero
  | failed => exact .inl (received_nil old)
  | closed sent short =>
      left
      have hnil : (Arrival.stream M (.closed sent short)).drop 4 = [] :=
        List.drop_eq_nil_iff.2 short.le
      rw [Arrival.expected, hnil, received_nil]

end Announced

/-! ## All arrivals -/

section Arrivals

variable {M rank worldSize : ℕ} {name : StdString} {hosts : List Bytes} {events : List Arrival}

/-- `nexpected` when the loop is entered: rank 0 does not know, another rank has been told. -/
def expectedAtFirst (M rank : ℕ) : Int32 :=
  if rank = 0 then -1 else Int32.ofNat M

/-- Every connector announces itself once. -/
def AllConnect (M : ℕ) (events : List Arrival) : Prop :=
  (events.filterMap Arrival.rank?).Perm (List.range M)

/-- `accept` ends with the sockets of all connectors, each at the rank that it has announced, and
    what rank 0 has broadcast is their number. -/
def AcceptsAll (M rank worldSize : ℕ) (name : StdString) (hosts : List Bytes)
    (events : List Arrival) : Prop :=
  ∃ sockets w', Rounds (accept rank worldSize name) (Queue.answer M)
      (.accepting hosts ⟨0, expectedAtFirst M rank, []⟩, ⟨events, [], []⟩) (.accepted sockets, w') ∧
    sockets.length = M ∧
    (∀ r, r < M → ∃ k : ℕ, sockets[r]? = some (k : ℤ) ∧ w'.accepted[k]? = some (.connector r)) ∧
    (rank = 0 → w'.cast = [intBytes (Int32.ofNat M)])

theorem AllConnect.lt (h : AllConnect M events) {r : ℕ} (hr : .connector r ∈ events) : r < M := by
  have hmem : r ∈ events.filterMap Arrival.rank? := List.mem_filterMap.2 ⟨_, hr, rfl⟩
  exact List.mem_range.1 (h.mem_iff.1 hmem)

/-- What the loop has taken from the arrivals. -/
def Taken (M rank : ℕ) (events : List Arrival) : Label → Queue → Prop
  | .start, _ => False
  | .waiting, _ => False
  | .accepting _ st, w => ∃ es, es ++ w.rest = events ∧ st.nconnected = es.length ∧
      (st.nexpected = expectedAtFirst M rank ∨ st.nexpected = Int32.ofNat M) ∧
      ∀ e ∈ w.accepted, e ∈ es
  | .accepted _, w => ∃ es, es ++ w.rest = events ∧ es.length = M ∧ ∀ e ∈ w.accepted, e ∈ es

/-- The loop ends only with the count that it expects. -/
theorem taken_of_rounds (hM : M < 2 ^ 31) (hall : AllConnect M events) {l : Label} {w : Queue}
    (h : Rounds (accept rank worldSize name) (Queue.answer M)
      (.accepting hosts ⟨0, expectedAtFirst M rank, []⟩, ⟨events, [], []⟩) (l, w)) :
    Taken M rank events l w := by
  refine h.preserves (P := Taken M rank events) ?_ ⟨[], rfl, rfl, .inl rfl, by simp [Queue.accepted]⟩
  intro l w l' w' htaken hrun
  cases l with
  | start => exact htaken.elim
  | waiting => exact htaken.elim
  | accepted sockets =>
      obtain ⟨rfl, hl⟩ := Prod.mk.inj hrun
      obtain rfl := Option.some.inj hl
      exact htaken
  | accepting hosts st =>
      obtain ⟨es, hes, hcount, hexpected, haccepted⟩ := htaken
      -- another round, or the end of the loop
      by_cases hne : st.nconnected ≠ st.nexpected.toInt
      · cases hrest : w.rest with
        | nil =>
            rw [run_blocked M rank worldSize name hosts hne hrest] at hrun
            exact absurd hrun (by simp)
        | cons e es' =>
            obtain ⟨w₁, fd, hround, -, hserved⟩ :=
              run_round M rank worldSize name hosts hne hrest
            rw [hround] at hrun
            obtain ⟨rfl, hl⟩ := Prod.mk.inj hrun
            obtain rfl := Option.some.inj hl
            have hmem : e ∈ events := by
              rw [← hes, hrest]
              exact List.mem_append_right _ (.head _)
            refine ⟨es ++ [e], ?_, ?_, ?_, ?_⟩
            · rw [hserved.rest, List.append_assoc, ← hes, hrest]
              rfl
            · show st.nconnected + 1 = _
              rw [hcount, List.length_append, List.length_singleton]
              push_cast
              rfl
            · show (if _ then _ else _) = _ ∨ (if _ then _ else _) = _
              split
              · next hzero =>
                  have hlt : ∀ r, e = .connector r → r < 2 ^ 31 :=
                    fun r hr => (hall.lt (hr ▸ hmem)).trans hM
                  rcases expected_of_announced e st.nexpected hlt hzero.2 with h | h
                  · rw [h]
                    exact hexpected
                  · exact .inr h
              · exact hexpected
            · intro e' he'
              rcases hserved.conns with ⟨-, -, hsame⟩ | ⟨-, -, hadd⟩
              · rw [hsame] at he'
                exact List.mem_append_left _ (haccepted e' he')
              · rw [hadd] at he'
                rcases List.mem_append.1 he' with he' | he'
                · exact List.mem_append_left _ (haccepted e' he')
                · exact List.mem_append_right _ he'
      · rw [not_not] at hne
        simp only [accept] at hrun
        rw [if_neg (not_not.2 hne)] at hrun
        cases hfill : fillSockets st.remotes with
        | none =>
            rw [hfill] at hrun
            exact absurd (congrArg Prod.snd hrun) (by simp [overrun, Prog.run, Queue.answer])
        | some sockets =>
            rw [hfill] at hrun
            obtain ⟨rfl, hl⟩ := Prod.mk.inj hrun
            obtain rfl := Option.some.inj hl
            refine ⟨es, hes, ?_, haccepted⟩
            -- acceptor 0 starts with -1, so it has been told the number of connectors
            have htotal : st.nexpected = Int32.ofNat M := by
              rcases hexpected with h | h
              · rw [expectedAtFirst] at h
                split at h
                · rw [h, hcount] at hne
                  exact absurd hne (by simp)
                · exact h
              · exact h
            rw [hcount, htotal, toInt_rank hM] at hne
            exact Int.ofNat.inj hne

/-! ## The connectors only -/

/-- The connections that are kept when connectors `rs` have come, the last one first. -/
def peersOf (rs : List ℕ) : List (ℕ × ℤ) :=
  (rs.zipIdx.map (fun x => (x.1, (x.2 : ℤ)))).reverse

theorem peersOf_concat (rs : List ℕ) (r : ℕ) :
    peersOf (rs ++ [r]) = (r, (rs.length : ℤ)) :: peersOf rs := by
  simp [peersOf, List.zipIdx_append]

theorem peersOf_fst (rs : List ℕ) : (peersOf rs).map Prod.fst = rs.reverse := by
  have hfst : (Prod.fst ∘ fun x : ℕ × ℕ => (x.1, (x.2 : ℤ))) = Prod.fst := rfl
  rw [peersOf, List.map_reverse, List.map_map, hfst, List.zipIdx_map_fst]

theorem mem_peersOf {rs : List ℕ} {r k : ℕ} (h : rs[k]? = some r) : (r, (k : ℤ)) ∈ peersOf rs := by
  refine List.mem_reverse.2 (List.mem_map.2 ⟨(r, k), ?_, rfl⟩)
  exact List.mk_mem_zipIdx_iff_getElem?.2 h

/-- Where the loop is when the connectors `rs` have come and `rs'` are next. -/
structure Progress (M rank : ℕ) (rs rs' : List ℕ) (tail : List Arrival) (st : Accepting)
    (w : Queue) :
    Prop where
  nconnected : st.nconnected = rs.length
  nexpected : st.nexpected = if 0 ∈ rs then Int32.ofNat M else expectedAtFirst M rank
  remotes : st.remotes = remotesOf (peersOf rs)
  rest : w.rest = rs'.map Arrival.connector ++ tail
  accepted : w.accepted = rs.map Arrival.connector
  cast : rank = 0 → w.cast = if 0 ∈ rs then [intBytes (Int32.ofNat M)] else []

theorem Progress.round (worldSize : ℕ) (name : StdString) (hosts : List Bytes) {rs rs' : List ℕ}
    {tail : List Arrival} {st : Accepting} {w : Queue} {r : ℕ}
    (h : Progress M rank rs (r :: rs') tail st w) (hM : M < 2 ^ 31)
    (hlt : ∀ r' ∈ rs ++ r :: rs', r' < M) (hnodup : (rs ++ r :: rs').Nodup)
    (hlen : rs.length < M) :
    ∃ st' w', (accept rank worldSize name (.accepting hosts st)).run (Queue.answer M) w =
        (w', some (.accepting hosts st')) ∧ Progress M rank (rs ++ [r]) rs' tail st' w' := by
  have hr : r < M := hlt r (List.mem_append_right _ (.head _))
  have hnew : r ∉ rs := fun hmem => (List.nodup_append.1 hnodup).2.2 r hmem r (.head _) rfl
  -- not all connectors have come, so the loop goes on
  have hne : st.nconnected ≠ st.nexpected.toInt := by
    rw [h.nconnected, h.nexpected, expectedAtFirst]
    split
    · rw [toInt_rank hM]
      omega
    · split
      · have hminus : (-1 : Int32).toInt = -1 := by decide
        rw [hminus]
        omega
      · rw [toInt_rank hM]
        omega
  obtain ⟨w', fd, hrun, hcast, hserved⟩ := run_round M rank worldSize name hosts hne h.rest
  obtain ⟨-, hfd, hadd⟩ := hserved.conns.resolve_left (fun hfailed => by simp at hfailed)
  have hfd' : fd = (rs.length : ℤ) := by rw [hfd, h.accepted, List.length_map]
  have hannounced : Arrival.announced M (.connector r) = Int32.ofNat r := announced_connector
  have hzero : Int32.ofNat r = 0 ↔ r = 0 := by
    constructor
    · intro hsame
      have hvalue := congrArg Int32.toInt hsame
      rw [toInt_rank (hr.trans hM)] at hvalue
      exact Int.ofNat.inj hvalue
    · rintro rfl
      rfl
  have hmem0 : r ≠ 0 → ∀ {α : Type} {x y : α},
      (if 0 ∈ rs then x else y) = if 0 ∈ rs ++ [r] then x else y := by
    intro hr0 α x y
    have hsame : 0 ∈ rs ++ [r] ↔ 0 ∈ rs := by
      rw [List.mem_append, List.mem_singleton, or_iff_left (Ne.symm hr0)]
    simp only [hsame]
  refine ⟨_, w', hrun, ?_⟩
  constructor
  · show st.nconnected + 1 = _
    rw [h.nconnected, List.length_append, List.length_singleton]
    push_cast
    rfl
  · -- only connector 0 has told the number of connectors
    show (if rank = 0 ∧ Arrival.announced M (.connector r) = 0 then _ else _) = _
    rw [hannounced, h.nexpected]
    by_cases hr0 : r = 0
    · subst hr0
      rw [if_pos (List.mem_append_right _ (.head _)), expected_connector_zero, if_neg hnew,
        expectedAtFirst]
      by_cases hrank : rank = 0
      · rw [if_pos ⟨hrank, rfl⟩]
      · rw [if_neg (fun hboth => hrank hboth.1), if_neg hrank]
    · rw [if_neg (fun hboth => hr0 (hzero.1 hboth.2)), hmem0 hr0]
  · rw [peersOf_concat, ← hfd', ← connect_remotes h.remotes (hr.trans hM) ?_ ?_]
    · show (st.connect _ _).remotes = _
      rw [hannounced]
    · intro p hp
      have hfst : p.1 ∈ (peersOf rs).map Prod.fst := List.mem_map.2 ⟨p, hp, rfl⟩
      rw [peersOf_fst, List.mem_reverse] at hfst
      exact (hlt p.1 (List.mem_append_left _ hfst)).trans hM
    · rw [peersOf_fst]
      exact fun hmem => hnew (List.mem_reverse.1 hmem)
  · exact hserved.rest
  · rw [hadd, h.accepted, List.map_append]
    rfl
  · intro hrank
    rw [hcast, h.cast hrank, castOf, hannounced]
    by_cases hr0 : r = 0
    · subst hr0
      have htold : rank = 0 ∧ Int32.ofNat 0 = 0 := ⟨hrank, rfl⟩
      rw [if_neg hnew, if_pos htold, if_pos (List.mem_append_right _ (.head _)),
        expected_connector_zero]
      rfl
    · have hsilent : ¬ (rank = 0 ∧ Int32.ofNat r = 0) := fun hboth => hr0 (hzero.1 hboth.2)
      rw [if_neg hsilent, List.append_nil, hmem0 hr0]

theorem Progress.rounds (worldSize : ℕ) (name : StdString) (hosts : List Bytes) {rs rs' : List ℕ}
    {tail : List Arrival} {st : Accepting} {w : Queue} (h : Progress M rank rs rs' tail st w)
    (hM : M < 2 ^ 31)
    (hperm : (rs ++ rs').Perm (List.range M)) :
    ∃ st' w', Rounds (accept rank worldSize name) (Queue.answer M)
        (.accepting hosts st, w) (.accepting hosts st', w') ∧
      Progress M rank (rs ++ rs') [] tail st' w' := by
  induction rs' generalizing rs st w with
  | nil =>
      rw [List.append_nil]
      exact ⟨st, w, .refl _, h⟩
  | cons r rs' ih =>
      have hlen : rs.length < M := by
        have hsize := hperm.length_eq
        rw [List.length_append, List.length_cons, List.length_range] at hsize
        omega
      obtain ⟨st₁, w₁, hrun, h₁⟩ := h.round worldSize name hosts hM
        (fun r' hr' => List.mem_range.1 (hperm.mem_iff.1 hr'))
        (hperm.nodup_iff.2 List.nodup_range) hlen
      have hsplit : rs ++ r :: rs' = rs ++ [r] ++ rs' := by simp
      rw [hsplit] at hperm ⊢
      obtain ⟨st', w', hrounds, h'⟩ := ih h₁ hperm
      exact ⟨st', w', .step hrun hrounds, h'⟩

/-- When all connectors have come, the loop ends with their sockets. -/
theorem Progress.end (worldSize : ℕ) (name : StdString) (hosts : List Bytes) {rs : List ℕ}
    {tail : List Arrival} {st : Accepting} {w : Queue} (h : Progress M rank rs [] tail st w)
    (hM : M < 2 ^ 31) (hpos : 0 < M)
    (hperm : rs.Perm (List.range M)) :
    ∃ sockets, (accept rank worldSize name (.accepting hosts st)).run (Queue.answer M) w =
        (w, some (.accepted sockets)) ∧ sockets.length = M ∧
      ∀ r k : ℕ, rs[k]? = some r → sockets[r]? = some (k : ℤ) := by
  have hlen : rs.length = M := by rw [hperm.length_eq, List.length_range]
  have hzero : 0 ∈ rs := hperm.mem_iff.2 (List.mem_range.2 hpos)
  have hdone : ¬ st.nconnected ≠ st.nexpected.toInt := by
    rw [h.nconnected, h.nexpected, if_pos hzero, toInt_rank hM, hlen]
    exact not_not.2 rfl
  have hpeers : (peersOf rs).length = M := by
    rw [peersOf, List.length_reverse, List.length_map, List.length_zipIdx, hlen]
  have hlt : ∀ p ∈ peersOf rs, p.1 < (peersOf rs).length := by
    intro p hp
    have hfst : p.1 ∈ (peersOf rs).map Prod.fst := List.mem_map.2 ⟨p, hp, rfl⟩
    rw [peersOf_fst, List.mem_reverse, hperm.mem_iff] at hfst
    rw [hpeers]
    exact List.mem_range.1 hfst
  have hnodup : ((peersOf rs).map Prod.fst).Nodup := by
    rw [peersOf_fst, List.nodup_reverse]
    exact hperm.nodup_iff.2 List.nodup_range
  obtain ⟨sockets, hfill, hsize, hget⟩ := fillSockets_eq_some hlt (hpeers ▸ hM) hnodup
  refine ⟨sockets, ?_, hsize.trans hpeers, fun r k hk => hget _ (mem_peersOf hk)⟩
  simp only [accept]
  rw [if_neg hdone, h.remotes, hfill]
  rfl

theorem exists_connectors {es : List Arrival} (h : ∀ e ∈ es, ∃ r, e = .connector r) :
    ∃ rs : List ℕ, es = rs.map Arrival.connector := by
  induction es with
  | nil => exact ⟨[], rfl⟩
  | cons e es ih =>
      obtain ⟨r, rfl⟩ := h e (.head _)
      obtain ⟨rs, rfl⟩ := ih (fun e he => h e (.tail _ he))
      exact ⟨r :: rs, rfl⟩

theorem filterMap_connectors (rs : List ℕ) :
    (rs.map Arrival.connector).filterMap Arrival.rank? = rs := by
  rw [List.filterMap_map]
  exact List.filterMap_some

/-- When the first `M` arrivals are connectors, they are all of them. -/
theorem AllConnect.perm_of_take (h : AllConnect M events) {rs : List ℕ}
    (hrs : events.take M = rs.map Arrival.connector) : rs.Perm (List.range M) := by
  have hsize : (events.filterMap Arrival.rank?).length = M := by
    rw [h.length_eq, List.length_range]
  have hsplit : events.filterMap Arrival.rank? =
      rs ++ (events.drop M).filterMap Arrival.rank? := by
    rw [← List.take_append_drop M events, List.filterMap_append, hrs, filterMap_connectors, ← hrs,
      List.take_append_drop]
  have hlen : rs.length = M := by
    have htake : (events.take M).length = rs.length := by rw [hrs, List.length_map]
    have hle := List.length_filterMap_le Arrival.rank? events
    rw [List.length_take] at htake
    omega
  have hrest : (events.drop M).filterMap Arrival.rank? = [] := by
    rw [hsplit, List.length_append] at hsize
    exact List.length_eq_zero_iff.1 (by omega)
  rw [hrest, List.append_nil] at hsplit
  rw [← hsplit]
  exact h

/-- With connectors only, `accept` ends with their sockets. -/
theorem acceptsAll_of_connectors (hM : M < 2 ^ 31) (hpos : 0 < M) (hall : AllConnect M events)
    (hfirst : ∀ e ∈ events.take M, ∃ r, e = .connector r) :
    AcceptsAll M rank worldSize name hosts events := by
  obtain ⟨rs, hrs⟩ := exists_connectors hfirst
  have hsplit : events = rs.map Arrival.connector ++ events.drop M := by
    rw [← hrs, List.take_append_drop]
  have hperm : rs.Perm (List.range M) := hall.perm_of_take hrs
  have hstart : Progress M rank [] rs (events.drop M) ⟨0, expectedAtFirst M rank, []⟩
      ⟨events, [], []⟩ := by
    constructor
    · rfl
    · rfl
    · rfl
    · exact hsplit
    · rfl
    · exact fun _ => rfl
  obtain ⟨st', w', hrounds, hlast⟩ := hstart.rounds worldSize name hosts hM hperm
  obtain ⟨sockets, hrun, hsize, hget⟩ := hlast.end worldSize name hosts hM hpos hperm
  refine ⟨sockets, w', hrounds.concat hrun, hsize, ?_, ?_⟩
  · intro r hr
    obtain ⟨k, hk⟩ := List.mem_iff_getElem?.1 (hperm.mem_iff.2 (List.mem_range.2 hr))
    refine ⟨k, hget r k hk, ?_⟩
    rw [hlast.accepted, List.nil_append, List.getElem?_map, hk]
    rfl
  · intro hrank
    rw [hlast.cast hrank, if_pos]
    exact hperm.mem_iff.2 (List.mem_range.2 hpos)

/-- When `accept` ends with the sockets of all connectors, it has accepted nothing else. -/
theorem AcceptsAll.connectors (hM : M < 2 ^ 31) (hall : AllConnect M events)
    (h : AcceptsAll M rank worldSize name hosts events) :
    ∀ e ∈ events.take M, ∃ r, e = .connector r := by
  obtain ⟨sockets, w', hrounds, -, hget, -⟩ := h
  obtain ⟨es, hes, hlen, haccepted⟩ := taken_of_rounds hM hall hrounds
  have htake : events.take M = es := by rw [← hes, ← hlen, List.take_left]
  rw [htake]
  have hmem : ∀ r, r < M → r ∈ es.filterMap Arrival.rank? := by
    intro r hr
    obtain ⟨k, -, hk⟩ := hget r hr
    exact List.mem_filterMap.2 ⟨_, haccepted _ (List.mem_of_getElem? hk), rfl⟩
  -- there are `M` ranks among the `M` arrivals
  have hsub : List.range M ⊆ es.filterMap Arrival.rank? :=
    fun r hr => hmem r (List.mem_range.1 hr)
  have hcount : es.length ≤ (es.filterMap Arrival.rank?).length := by
    have hle := (List.nodup_range.subperm hsub).length_le
    rwa [List.length_range, ← hlen] at hle
  intro e he
  have hall' := (List.filterMap_length_eq_length.1
    (le_antisymm (List.length_filterMap_le _ _) hcount)) e he
  cases e with
  | connector r => exact ⟨r, rfl⟩
  | failed => exact absurd hall' (by simp [Arrival.rank?])
  | closed sent short => exact absurd hall' (by simp [Arrival.rank?])

end Arrivals

/-- **Failed connections.** All acceptors of a group end with the sockets of all connectors if and
    only if at none of them a failure comes before the last connector. -/
theorem accept_tolerates_iff (N M : ℕ) (hpos : 1 ≤ M) (hM : M < 2 ^ 31) (name : ℕ → StdString)
    (hosts : List Bytes) (events : ℕ → List Arrival) (hall : ∀ c, c < N → AllConnect M (events c)) :
    (∀ c, c < N → AcceptsAll M c N (name c) hosts (events c)) ↔
      ∀ c, c < N → ∀ e ∈ (events c).take M, ∃ r, e = .connector r := by
  constructor
  · intro h c hc
    exact (h c hc).connectors hM (hall c hc)
  · intro h c hc
    exact acceptsAll_of_connectors hM hpos (hall c hc) (h c hc)

/-- Two connectors at two acceptors, with a failure when both have come. -/
theorem accept_tolerates_late :
    AcceptsAll 2 0 2 ⟨[104, 58, 49], by decide⟩ [] [.connector 1, .connector 0, .failed] ∧
      AcceptsAll 2 1 2 ⟨[104, 58, 49], by decide⟩ [] [.connector 1, .connector 0, .failed] := by
  have hboth := (accept_tolerates_iff 2 2 (by decide) (by decide)
    (fun _ => ⟨[104, 58, 49], by decide⟩) [] (fun _ => [.connector 1, .connector 0, .failed])
    (fun _ _ => List.Perm.swap 0 1 [])).2 (fun _ _ => by simp)
  exact ⟨hboth 0 (by decide), hboth 1 (by decide)⟩

/-- One connector, after an `::accept` that has failed. -/
theorem failure_counts : ¬ AcceptsAll 1 0 1 ⟨[104, 58, 49], by decide⟩ []
    [.failed, .connector 0] := by
  intro h
  have hall : AllConnect 1 [.failed, .connector 0] := List.Perm.refl [0]
  obtain ⟨r, hr⟩ := h.connectors (by decide) hall .failed (.head _)
  exact absurd hr (by simp)

end Acceptor

end LibIS
