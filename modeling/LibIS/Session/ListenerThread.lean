import LibIS.Session.Outline

set_option autoImplicit false

/-! # Sessions: the listener thread

The thread reads a frame in three pieces. What it gets is the start of the frame of the client whose
connection it has accepted, and a piece of full length is the whole piece of the frame
(`recvFrame_triple`). -/

open ByteCodec Prog ThreadSystem Proof

namespace LibIS

namespace Session

variable {X : Setup}

/-! ## Pieces of a frame -/

theorem piece_eq {bs piece rest : Bytes} (h : bs <+: piece ++ rest)
    (hmoved : Listener.moved (some bs) = piece.length) : bs = piece := by
  have hlen : bs.length = piece.length := Int.ofNat.inj hmoved
  exact (List.prefix_of_prefix_length_le h (List.prefix_append _ _) hlen.le).eq_of_length hlen

theorem portNameLen_eq (i : ℕ) :
    (intOfBytes (intBytes (Int32.ofNat ((X.port i).bytes.length + 1)))).toInt =
      ((X.port i).bytes.length + 1 : ℕ) := by
  have hlen := X.port_length i
  have hmax := X.maxPortName_lt
  rw [intOfBytes_intBytes, Int32.toInt_ofNat_of_lt (by omega)]

/-- The array that holds the port name of a client with its terminator. -/
def portArray (X : Setup) (i : ℕ) : Bytes :=
  Listener.portNameArray X.maxPortName ((X.port i).bytes ++ [0])

theorem cString_port (i : ℕ) : Listener.cString (portArray X i) = some (X.port i) := by
  have hlen := X.port_length i
  have hmax := X.maxPortName_lt
  exact Listener.cString_terminated _ (X.port_bytes i) (by omega)

/-! ## The operations of the thread -/

theorem raise_triple {α : Type} {e : Fault} {pre : World → Prop} {Q : α → World → Prop}
    (hstable : (outline X).Stable .listener pre) :
    (outline X).Triple .listener pre (Listener.raise e) Q :=
  Triple.vis (R := fun _ _ => True) hstable (fun _ _ _ => trivial) (fun _ r => r.elim)
    (fun r => r.elim)

theorem load_triple {pre : World → Prop} (hstable : (outline X).Stable .listener pre) :
    (outline X).Triple .listener pre Listener.loadExitThread
      (fun r w => (r = true → w.exitThread = true) ∧ pre w) := by
  refine listener_op hstable (fun _ _ _ => trivial) ?_
  rintro w r w' hinv hpre ⟨rfl, rfl⟩
  exact ⟨hinv, id, hpre⟩

theorem closeSocket_triple {accepted : ℕ} {pre : World → Prop}
    (hstable : (outline X).Stable .listener pre) :
    (outline X).Triple .listener pre (Listener.closeSocket accepted) (fun _ => pre) := by
  refine listener_op hstable (fun _ _ _ => trivial) ?_
  rintro w r w' hinv hpre rfl
  exact ⟨hinv, hpre⟩

theorem alive_stable : (outline X).Stable .listener Alive :=
  fun _ _ h hrely _ => h.stable hrely

theorem reading_stable (i n : ℕ) :
    (outline X).Stable .listener (fun w => Alive w ∧ Reading i n w) :=
  fun _ _ h hrely _ => ⟨h.1.stable hrely, h.2.stable hrely⟩

theorem recvSocket_triple (i n : ℕ) (size : Int) :
    (outline X).Triple .listener (fun w => Alive w ∧ Reading i n w) (Listener.recvSocket i size)
      (fun r w => (∀ bs, r = some bs → bs <+: (frameBytes X i).drop n ∧
          (0 ≤ size → bs.length ≤ size)) ∧
        Alive w ∧ Reading i (n + (r.getD []).length) w) := by
  refine listener_op (reading_stable i n) (fun _ _ _ => trivial) ?_
  rintro w r w' hinv ⟨halive, hat⟩ (⟨rfl, rfl⟩ | ⟨bs, rfl, hbs, hsize, rfl⟩)
  · exact ⟨hinv, by simp, halive, hat⟩
  · refine ⟨hinv.readFrame _ hat.accepted, ?_, { halive with }, { hat with taken := ?_ }⟩
    · rintro bs' hbs'
      obtain rfl := Option.some.inj hbs'
      refine ⟨?_, hsize⟩
      rw [← hat.taken]
      exact hbs.trans ((hinv.frames i).drop _)
    · simp only [Function.update_self, Channel.advance_taken, hat.taken, Option.getD_some]

theorem drop_triple (i n : ℕ) {Q : Bytes × Int32 → World → Prop} :
    (outline X).Triple .listener (fun w => Alive w ∧ Reading i n w)
      (Listener.closeSocket i >>= fun _ => pure none)
      (fun frame w => Alive w ∧ ∀ f, frame = some f → Q f w) :=
  Triple.bind (closeSocket_triple (reading_stable i n))
    (fun _ => Triple.ret (fun _ _ h => ⟨h.1, by simp⟩))

/-- A whole frame is the frame of the client. -/
theorem recvFrame_triple (i : ℕ) :
    (outline X).Triple .listener (fun w => Alive w ∧ Reading i 0 w)
      (Listener.recvFrame X.maxPortName i)
      (fun frame w => Alive w ∧ ∀ f, frame = some f → f = (portArray X i, connectCmd) ∧
        ∃ n, Reading i n w) := by
  have hname := X.port_length i
  simp only [Listener.recvFrame]
  refine Triple.bind (recvSocket_triple i 0 4) (fun r => Triple.pure (fun hr => ?_))
  by_cases hlen : Listener.moved r ≠ 4
  · rw [if_pos hlen]
    exact drop_triple i _
  · rw [if_neg hlen]
    rw [not_not] at hlen
    cases r with
    | none => exact absurd hlen (by decide)
    | some lenBytes =>
    -- the length of the port name
    have hlenBytes : lenBytes = intBytes (Int32.ofNat ((X.port i).bytes.length + 1)) := by
      have hbegins := (hr lenBytes rfl).1
      rw [List.drop_zero, frameBytes, List.append_assoc] at hbegins
      exact piece_eq hbegins (by rw [hlen, intBytes_length]; rfl)
    have hnameLen : (intOfBytes ((some lenBytes).getD [])).toInt =
        ((X.port i).bytes.length + 1 : ℕ) := by
      rw [Option.getD_some, hlenBytes, portNameLen_eq]
    rw [hnameLen]
    refine Triple.bind (recvSocket_triple i _ _) (fun r => Triple.pure (fun hr => ?_))
    have hfits : ¬ Listener.moved r > X.maxPortName + 1 := by
      cases r with
      | none =>
          simp only [Listener.moved]
          omega
      | some portName =>
          have hsize := (hr portName rfl).2 (Int.natCast_nonneg _)
          simp only [Listener.moved]
          omega
    rw [if_neg hfits]
    by_cases hport : Listener.moved r ≠ ((X.port i).bytes.length + 1 : ℕ)
    · rw [if_pos hport]
      exact drop_triple i _
    · rw [if_neg hport]
      rw [not_not] at hport
      cases r with
      | none => exact absurd hport (by simp only [Listener.moved]; omega)
      | some portName =>
      -- the port name with its terminator
      have hportName : portName = (X.port i).bytes ++ [0] := by
        have hbegins := (hr portName rfl).1
        rw [Option.getD_some, hlenBytes, Nat.zero_add, frameBytes, List.append_assoc,
          List.drop_left] at hbegins
        exact piece_eq hbegins (by rw [hport, List.length_append, List.length_singleton])
      have harray : Listener.portNameArray X.maxPortName ((some portName).getD []) =
          portArray X i := by
        rw [Option.getD_some, hportName, portArray]
      rw [harray, Listener.recvCommand, cString_port]
      refine Triple.bind (recvSocket_triple i _ _) (fun r => Triple.pure (fun hr => ?_))
      by_cases hcmd : Listener.moved r ≠ 4
      · rw [if_pos hcmd]
        exact drop_triple i _
      · rw [if_neg hcmd]
        rw [not_not] at hcmd
        cases r with
        | none => exact absurd hcmd (by decide)
        | some cmd =>
        -- the command
        have hcmdBytes : cmd = intBytes connectCmd := by
          have hbegins := (hr cmd rfl).1
          rw [Option.getD_some, Option.getD_some, hlenBytes, hportName, Nat.zero_add, frameBytes,
            ← List.length_append, List.drop_left] at hbegins
          exact piece_eq (hbegins.trans (List.prefix_append _ []))
            (by rw [hcmd, intBytes_length]; rfl)
        refine Triple.bind (closeSocket_triple (reading_stable i _))
          (fun _ => Triple.ret (fun w _ h => ⟨h.1, fun f hf => ⟨?_, _, h.2⟩⟩))
        rw [← Option.some.inj hf, Option.getD_some, hcmdBytes, intOfBytes_intBytes]

/-- The listener thread publishes the frame of a client under the mutex. -/
theorem publishFrame_triple (i n : ℕ) :
    (outline X).Triple .listener (fun w => Alive w ∧ Reading i n w)
      (Listener.publishFrame (portArray X i) connectCmd) (fun _ => Leaving) := by
  have hlock : (outline X).Triple .listener (fun w => Alive w ∧ Reading i n w)
      Listener.lockMutex (fun cm w => cm = w.manager ∧ w.holder = some .listener ∧
        w.started = w.ended + 1 ∧ w.published < w.started ∧ Reading i n w) := by
    refine listener_op (reading_stable i n) (fun _ _ _ => trivial) ?_
    rintro w r w' hinv ⟨halive, hat⟩ ⟨hholder, rfl, rfl⟩
    exact ⟨hinv.holdListener hholder, rfl, rfl, halive.started, halive.published, { hat with }⟩
  refine Triple.bind hlock (fun cm => ?_)
  have hclosed : ∀ w, Inv X w → w.holder = some .listener → w.started = w.ended + 1 →
      w.published < w.started → w.destroying = false ∧ w.manager.intercomm = none ∧
        w.manager.newQuery = false := by
    intro w hinv hholder hstarted hpublished
    obtain ⟨hdestroying, hcomm, hquery, -⟩ :=
      hinv.closed_of_lt hstarted hpublished (by simp [hholder])
    exact ⟨hdestroying, hcomm, hquery⟩
  have hstable : (outline X).Stable .listener (fun w => cm = w.manager ∧ w.holder = some .listener ∧
      w.started = w.ended + 1 ∧ w.published < w.started ∧ Reading i n w) := by
    rintro w w' ⟨rfl, hholder, hstarted, hpublished, hat⟩ hrely -
    refine ⟨(hrely.manager hholder).symm, hrely.holder.2 hholder, ?_, ?_, hat.stable hrely⟩
    · rw [hrely.started, hrely.ended]
      exact hstarted
    · rw [hrely.published, hrely.started]
      exact hpublished
  rw [cString_port]
  refine listener_op hstable ?_ ?_
  · rintro w hinv ⟨rfl, hholder, hstarted, hpublished, hat⟩
    obtain ⟨hdestroying, hcomm, hquery⟩ := hclosed w hinv hholder hstarted hpublished
    exact ⟨⟨hholder, hdestroying⟩, ⟨hat.reading ▸ hat.new, rfl⟩, hcomm, hquery⟩
  · rintro w r w' hinv ⟨rfl, hholder, hstarted, hpublished, hat⟩ hperform
    simp only [performListener] at hperform
    subst hperform
    obtain rfl := hat.reading
    refine ⟨hinv.publish hstarted hpublished (by simp [hholder]) hat.new hat.accepted, ?_⟩
    exact ⟨hstarted, .inr rfl, by simp⟩

/-! ## The loops -/

theorem afterAccept_triple {accepted : Option ℕ} {pre : World → Prop}
    (hpre : ∀ w, pre w → Alive w ∧ ∀ i, accepted = some i → Reading i 0 w)
    (hstable : (outline X).Stable .listener pre) :
    (outline X).Triple .listener pre (Listener.afterAccept X.maxPortName accepted)
      listenerPost := by
  simp only [Listener.afterAccept]
  refine Triple.bind (load_triple hstable) (fun exit => ?_)
  cases exit with
  | true =>
      refine Triple.ret (fun w _ h => ?_)
      have halive := (hpre w h.2).1
      exact ⟨halive.started, .inl (h.1 rfl), halive.holder⟩
  | false =>
      cases accepted with
      | none => exact Triple.ret (fun w _ h => (hpre w h.2).1)
      | some i =>
          have hframe : (outline X).Triple .listener
              (fun w => (false = true → w.exitThread = true) ∧ pre w)
              (Listener.recvFrame X.maxPortName i) _ :=
            Triple.conseq (recvFrame_triple i)
              (fun w _ h => ⟨(hpre w h.2).1, (hpre w h.2).2 i rfl⟩) (fun _ _ _ h => h)
          refine Triple.bind hframe (fun frame => ?_)
          cases frame with
          | none => exact Triple.ret (fun w _ h => h.1)
          | some f =>
              have hpublish : (outline X).Triple .listener
                  (fun w => f = (portArray X i, connectCmd) ∧ ∃ n, Alive w ∧ Reading i n w)
                  (Listener.publishFrame f.1 f.2 >>= fun _ => pure Listener.Label.leaving)
                  listenerPost := by
                refine Triple.pure (fun hf => Triple.exists (fun n => ?_))
                rw [hf]
                exact Triple.bind (publishFrame_triple i n) (fun _ => Triple.ret (fun _ _ h => h))
              refine Triple.conseq hpublish (fun w _ h => ?_) (fun _ _ _ h => h)
              obtain ⟨halive, hf⟩ := h
              obtain ⟨hf, n, hat⟩ := hf f rfl
              exact ⟨hf, n, halive, hat⟩

theorem accept_triple :
    (outline X).Triple .listener Alive Listener.acceptSocket
      (fun r w => Alive w ∧ ∀ i, r = .ok (some i) → Reading i 0 w) := by
  refine listener_op alive_stable (fun _ _ _ => trivial) ?_
  rintro w r w' hinv halive (⟨e, rfl, rfl⟩ | ⟨rfl, rfl⟩ | ⟨i, hi, rfl, rfl⟩)
  · exact ⟨hinv, halive, by simp⟩
  · exact ⟨hinv, halive, by simp⟩
  · refine ⟨hinv.accept hi, { halive with }, fun j hj => ?_⟩
    obtain rfl : i = j := by simpa using hj
    obtain ⟨hlt, hget⟩ := List.getElem?_eq_some_iff.1 hi
    -- nobody connects twice, so nothing has been read from this client
    have hnot : i ∉ w.dials.sent.take w.dials.taken := by
      intro hmem
      obtain ⟨k, hk, hk'⟩ := List.mem_take_iff_getElem.1 hmem
      have hsame := (hinv.dialsOnce.getElem_inj_iff).1 (hk'.trans hget.symm)
      omega
    obtain ⟨htaken, hnew⟩ := (hinv.untouched i).resolve_left hnot
    refine ⟨rfl, ?_, htaken, hnew⟩
    simp only [Channel.pop_sent, Channel.pop_taken]
    rw [List.take_succ_eq_append_getElem hlt, hget]
    simp

/-- `listenForClient` publishes at most one frame, and ends with one unless it is stopped. -/
theorem listenForClient_triple (l : Listener.Label) :
    (outline X).Triple .listener (listenerPost l) (Listener.listenForClient X.maxPortName l)
      listenerPost := by
  cases l with
  | waiting =>
      have hbegin : (outline X).Triple .listener (listenerPost .waiting) Listener.beginThread
          (fun _ => Alive) := by
        refine listener_op ?_ (fun _ _ _ => trivial) ?_
        · rintro w w' ⟨hended, hholder⟩ hrely -
          refine ⟨?_, fun hw => hholder (hrely.holder.1 hw)⟩
          rw [hrely.started, hrely.ended]
          exact hended
        · rintro w r w' hinv ⟨hended, hholder⟩ ⟨hlt, rfl⟩
          exact ⟨hinv.begin hlt, congrArg (· + 1) hended, Nat.lt_succ_of_le hinv.published_le, hholder⟩
      have hopen : (outline X).Triple .listener Alive Listener.openListenSocket
          (fun _ => Alive) := by
        refine listener_op alive_stable (fun _ _ _ => trivial) ?_
        rintro w r w' hinv halive (⟨e, -, rfl⟩ | ⟨-, rfl⟩)
        · exact ⟨hinv, halive⟩
        · exact ⟨hinv.openSocket, { halive with }⟩
      refine Triple.bind hbegin (fun _ => Triple.bind hopen (fun result => ?_))
      cases result with
      | error e => exact raise_triple alive_stable
      | ok _ => exact Triple.ret (fun _ _ h => h)
  | listening =>
      refine Triple.bind (load_triple alive_stable) (fun exit => ?_)
      cases exit with
      | true => exact Triple.ret (fun w _ h => ⟨h.2.started, .inl (h.1 rfl), h.2.holder⟩)
      | false => exact Triple.ret (fun w _ h => h.2)
  | accepting =>
      refine Triple.bind (load_triple alive_stable) (fun exit => ?_)
      cases exit with
      | true =>
          have hleave : (outline X).Triple .listener Alive
              (Listener.afterAccept X.maxPortName none) listenerPost :=
            afterAccept_triple (fun w h => ⟨h, fun i hi => absurd hi (by simp)⟩) alive_stable
          exact Triple.conseq hleave (fun w _ h => h.2) (fun _ _ _ h => h)
      | false =>
          refine Triple.conseq (Triple.bind accept_triple (fun accepted => ?_)) (fun w _ h => h.2)
            (fun _ _ _ h => h)
          cases accepted with
          | error e =>
              exact Triple.conseq (raise_triple alive_stable) (fun w _ h => h.1) (fun _ _ _ h => h)
          | ok accepted =>
              cases accepted with
              | none => exact Triple.ret (fun w _ h => h.1)
              | some i =>
                  have hread : (outline X).Triple .listener (fun w => Alive w ∧ Reading i 0 w)
                      (Listener.afterAccept X.maxPortName (some i)) listenerPost :=
                    afterAccept_triple (fun w h => ⟨h.1, fun j hj => Option.some.inj hj ▸ h.2⟩)
                      (reading_stable i 0)
                  exact Triple.conseq hread (fun w _ h => ⟨h.1, h.2 i rfl⟩) (fun _ _ _ h => h)
  | leaving =>
      have hstable : (outline X).Stable .listener Leaving := fun _ _ h hrely _ => h.stable hrely
      have hclose : (outline X).Triple .listener Leaving Listener.closeListenSocket
          (fun _ => Leaving) := by
        refine listener_op hstable (fun _ _ _ => trivial) ?_
        rintro w r w' hinv hat rfl
        exact ⟨hinv.closeSocket, { hat with }⟩
      have hfinish : (outline X).Triple .listener Leaving Listener.finishThread
          (fun _ => listenerPost .waiting) := by
        refine listener_op hstable (fun _ _ _ => trivial) ?_
        rintro w r w' hinv hat rfl
        -- a thread that has not been stopped has published a frame
        refine ⟨hinv.finish hat.started (fun hexit => ?_), hat.started, hat.holder⟩
        exact hat.published.resolve_left (by simp [hexit])
      exact Triple.bind hclose (fun _ => Triple.bind hfinish (fun _ => Triple.ret (fun _ _ h => h)))

end Session

end LibIS
