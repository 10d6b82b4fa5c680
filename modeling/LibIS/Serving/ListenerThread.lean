import LibIS.Serving.Outline

set_option autoImplicit false

/-! # Serving the listening socket: the listener thread

The thread closes every connection it accepts, and publishes the frame of a client whose frame is
complete (`recvFrame_triple`, `publishFrame_triple`). -/

open ByteCodec Prog ThreadSystem Proof

namespace LibIS

namespace Serving

variable {X : Setup} {q t : Prop} {w w' : World}

/-! ## The peers -/

theorem modify_last (ps : List Peer) (p : Peer) (f : Peer → Peer) :
    (ps ++ [p]).modify ps.length f = ps ++ [f p] := by
  induction ps with
  | nil => rfl
  | cons p' ps ih => simpa [List.modify_succ_cons] using ih

/-- The listener reads from `p`, the peer that has been accepted last, and is done with the others.
    -/
structure At (X : Setup) (t : Prop) (ps : List Peer) (p : Peer) (w : World) : Prop where
  running : Running w
  peers : w.peers = ps ++ [p]
  reading : w.reading = ps.length
  untested : w.untested = none
  settled : t → ∀ p' ∈ ps, Settled X p'

section Stable

theorem Running.stable (h : Running w) (hrely : ListenerRely w w') : Running w' :=
  ⟨hrely.running.2 h.1, fun hw => h.2 (hrely.holder.1 hw)⟩

theorem Clean.stable (h : Clean X t w) (hrely : ListenerRely w w') : Clean X t w' := by
  obtain ⟨hrunning, huntested, hsettled⟩ := h
  refine ⟨hrunning.stable hrely, hrely.untested.trans huntested, ?_⟩
  rw [hrely.peers]
  exact hsettled

theorem Leaving.stable (h : Leaving X t w) (hrely : ListenerRely w w') : Leaving X t w' := by
  obtain ⟨hthread, hholder, hsettled⟩ := h
  refine ⟨?_, fun hw => hholder (hrely.holder.1 hw), ?_⟩
  · rcases hthread with h | ⟨h, hexit⟩
    · exact .inl (hrely.published.2 h)
    · exact .inr ⟨hrely.running.2 h, hrely.exitThread hexit⟩
  · rw [hrely.peers]
    exact hsettled

theorem At.stable {ps : List Peer} {p : Peer} (h : At X t ps p w) (hrely : ListenerRely w w') :
    At X t ps p w' where
  running := h.running.stable hrely
  peers := hrely.peers.trans h.peers
  reading := hrely.reading.trans h.reading
  untested := hrely.untested.trans h.untested
  settled := h.settled

theorem clean_stable : (outline X q t).Stable .listener (Clean X t) :=
  fun _ _ h hrely _ => h.stable hrely

theorem at_stable (ps : List Peer) (p : Peer) :
    (outline X q t).Stable .listener (At X t ps p) :=
  fun _ _ h hrely _ => h.stable hrely

theorem leaving_stable : (outline X q t).Stable .listener (Leaving X t) :=
  fun _ _ h hrely _ => h.stable hrely

end Stable

/-- A change of the peer that is read keeps the invariant, if it keeps what has been published. -/
theorem Inv.mapLast {ps : List Peer} {p : Peer} (h : Inv X q t w) (hat : At X t ps p w)
    {f : Peer → Peer} (hf : (f p).published = p.published) :
    Inv X q t (w.mapPeer ps.length f) ∧ At X t ps (f p) (w.mapPeer ps.length f) := by
  have hpeers : (w.mapPeer ps.length f).peers = ps ++ [f p] := by
    show w.peers.modify ps.length f = ps ++ [f p]
    rw [hat.peers, modify_last]
  have hanswered : ∀ p' ∈ (w.mapPeer ps.length f).peers, ∀ port,
      p'.published = some (port, Command.connect.toInt32) →
        Answered w port ∨ Pending w.manager port := by
    intro p' hp' port hport
    rw [hpeers] at hp'
    rcases List.mem_append.1 hp' with hp' | hp'
    · exact h.answered p' (by rw [hat.peers]; exact List.mem_append_left _ hp') port hport
    · rw [List.mem_singleton.1 hp', hf] at hport
      exact h.answered p (by rw [hat.peers]; exact List.mem_append_right _ (.head _)) port hport
  constructor
  · exact {
      settled := fun _ hne => absurd hat.running.1 hne
      consistent := fun hholder hdestroying =>
        let hc := h.consistent hholder hdestroying
        ⟨hc.listening, hc.pending, hc.serving, hc.newer, hc.joinable⟩
      answered := hanswered
      destroying := h.destroying }
  · exact ⟨hat.running, hpeers, hat.reading, hat.untested, hat.settled⟩

/-! ## The frame of a client -/

section Frame

variable {port : StdString} {p : Peer}

/-- The length of the port name, with its terminator. -/
def portNameLen (port : StdString) : Bytes :=
  intBytes (Int32.ofNat (port.bytes.length + 1))

theorem portNameLen_value (h : p.Connects X port) :
    (intOfBytes (portNameLen port)).toInt = ((port.bytes ++ [0]).length : ℕ) := by
  have hlen := h.length
  have hmax := X.maxPortName_lt
  rw [portNameLen, intOfBytes_intBytes, Int32.toInt_ofNat_of_lt (by omega), List.length_append]
  rfl

/-- The three pieces, by how much has been received before. -/
theorem Peer.Connects.rest_zero (h : p.Connects X port) (htaken : p.taken = 0) :
    p.rest = portNameLen port ++ ((port.bytes ++ [0]) ++ intBytes Command.connect.toInt32) := by
  rw [rest, htaken, List.drop_zero, h.frame]
  rfl

/-- A receive of the whole next piece leaves the rest. -/
theorem Peer.rest_advance {piece rest : Bytes} (h : p.rest = piece ++ rest) :
    (p.advance piece.length).rest = rest := by
  have hdrop : (p.advance piece.length).rest = p.rest.drop piece.length := by
    rw [Peer.rest, Peer.rest, List.drop_drop]
    rfl
  rw [hdrop, h, List.drop_left]

end Frame

/-! ## The operations of the thread -/

theorem raise_triple {α : Type} {e : Fault} {pre : World → Prop} {Q : α → World → Prop}
    (hstable : (outline X q t).Stable .listener pre) :
    (outline X q t).Triple .listener pre (Listener.raise e) Q :=
  Triple.vis (R := fun _ _ => True) hstable (fun _ _ _ => trivial) (fun _ r => r.elim)
    (fun r => r.elim)

theorem overrun_triple {α : Type} {pre : World → Prop} {Q : α → World → Prop}
    (hstable : (outline X q t).Stable .listener pre) :
    (outline X q t).Triple .listener pre Listener.overrun Q :=
  Triple.vis (R := fun _ _ => True) hstable (fun _ _ _ => trivial) (fun _ r => r.elim)
    (fun r => r.elim)

/-- A receive: what it gets, and that it gets all of the next piece of a client's frame. -/
theorem recvSocket_triple (ps : List Peer) (p : Peer) (size : Int) :
    (outline X q t).Triple .listener (At X t ps p) (Listener.recvSocket ps.length size)
      (fun r w => (∀ piece rest, p.arrived = true → p.rest = piece ++ rest →
          size = piece.length → r = some piece) ∧
        At X t ps (p.advance (r.getD []).length) w) := by
  refine listener_op (at_stable ps p) (fun w _ h => h.running.1) ?_
  rintro w r w' hinv hat ⟨p', hget, hwhole, -, rfl⟩ -
  obtain rfl : p' = p := by
    rw [hat.peers, List.getElem?_concat_length] at hget
    exact (Option.some.inj hget).symm
  obtain ⟨hinv', hat'⟩ := hinv.mapLast hat (f := fun p => p.advance (r.getD []).length) rfl
  refine ⟨hinv', fun piece rest harrived hrest hsize => ?_, hat'⟩
  rw [hwhole harrived (by omega), hrest, hsize, Int.toNat_natCast, List.take_left]

theorem closeSocket_triple (ps : List Peer) (p : Peer) :
    (outline X q t).Triple .listener (At X t ps p) (Listener.closeSocket ps.length)
      (fun _ => At X t ps p.close) := by
  refine listener_op (at_stable ps p) (fun w _ h => h.running.1) ?_
  rintro w r w' hinv hat rfl -
  exact hinv.mapLast hat rfl

/-- What `recvFrame` leaves of a peer that has just been accepted: its socket has been closed once,
    and a client's frame has been received. -/
def Received (X : Setup) (t : Prop) (ps : List Peer) (frame : Option (Bytes × Int32)) (w : World) :
    Prop :=
  ∃ p, At X t ps p w ∧ p.closes = 1 ∧ p.published = none ∧
    ∀ port, p.Connects X port → frame = some
      (Listener.portNameArray X.maxPortName (port.bytes ++ [0]), Command.connect.toInt32)

/-- A short piece, which is none of a client: the connection is closed and dropped. -/
theorem drop_triple {ps : List Peer} {p : Peer} (hcloses : p.closes = 0) (hnone : p.published = none)
    (hshort : ∀ port, ¬ p.Connects X port) :
    (outline X q t).Triple .listener (At X t ps p)
      (Listener.closeSocket ps.length >>= fun _ => pure none) (Received X t ps) := by
  refine Triple.bind (closeSocket_triple ps p) (fun _ => Triple.ret (fun w _ h => ?_))
  refine ⟨p.close, h, congrArg (· + 1) hcloses, hnone, fun port hconnects => ?_⟩
  exact absurd { hconnects with } (hshort port)

/-- The frame of a client whose frame is complete is received. -/
theorem recvFrame_triple (ps : List Peer) {p : Peer} (hcloses : p.closes = 0)
    (hnone : p.published = none) (htaken : p.taken = 0) :
    (outline X q t).Triple .listener (At X t ps p) (Listener.recvFrame X.maxPortName ps.length)
      (Received X t ps) := by
  simp only [Listener.recvFrame]
  refine Triple.bind (recvSocket_triple ps p 4) (fun r₁ => Triple.pure (fun hr => ?_))
  have hfirst : ∀ port, p.Connects X port → r₁ = some (portNameLen port) :=
    fun port hport => hr _ _ hport.arrived (hport.rest_zero htaken) (by
      rw [portNameLen, intBytes_length]
      rfl)
  by_cases hlen : Listener.moved r₁ ≠ 4
  · rw [if_pos hlen]
    refine drop_triple hcloses hnone (fun port hport => hlen ?_)
    rw [hfirst port { hport with }, portNameLen, Listener.moved, intBytes_length]
    rfl
  rw [if_neg hlen]
  refine Triple.bind (recvSocket_triple ps _ _) (fun r₂ => Triple.pure (fun hr => ?_))
  -- the second receive asks for the port name with its terminator
  have hsecond : ∀ port, p.Connects X port →
      (intOfBytes (r₁.getD [])).toInt = ((port.bytes ++ [0]).length : ℕ) ∧
        (p.advance (r₁.getD []).length).rest =
          (port.bytes ++ [0]) ++ intBytes Command.connect.toInt32 ∧
        r₂ = some (port.bytes ++ [0]) := by
    intro port hport
    have hvalue := portNameLen_value hport
    have hrest := Peer.rest_advance (hport.rest_zero htaken)
    rw [← Option.getD_some (a := portNameLen port) (b := []), ← hfirst port hport] at hvalue hrest
    exact ⟨hvalue, hrest, hr _ _ hport.arrived hrest hvalue⟩
  by_cases hover : Listener.moved r₂ > X.maxPortName + 1
  · rw [if_pos hover]
    exact overrun_triple (at_stable ps _)
  rw [if_neg hover]
  by_cases hshort : Listener.moved r₂ ≠ (intOfBytes (r₁.getD [])).toInt
  · rw [if_pos hshort]
    refine drop_triple hcloses hnone (fun port hport => hshort ?_)
    obtain ⟨hvalue, -, hname⟩ := hsecond port { hport with }
    rw [hvalue, hname]
    rfl
  rw [if_neg hshort, Listener.recvCommand]
  cases Listener.cString (Listener.portNameArray X.maxPortName (r₂.getD [])) with
  | none => exact overrun_triple (at_stable ps _)
  | some printed =>
  refine Triple.bind (recvSocket_triple ps _ 4) (fun r₃ => Triple.pure (fun hr => ?_))
  have hthird : ∀ port, p.Connects X port → r₃ = some (intBytes Command.connect.toInt32) := by
    intro port hport
    obtain ⟨-, hrest, hname⟩ := hsecond port hport
    have hlast := Peer.rest_advance hrest
    rw [← Option.getD_some (a := port.bytes ++ [0]) (b := []), ← hname] at hlast
    refine hr _ [] hport.arrived ?_ (by rw [intBytes_length]; rfl)
    rw [hlast, List.append_nil]
  by_cases hcmd : Listener.moved r₃ ≠ 4
  · rw [if_pos hcmd]
    refine drop_triple hcloses hnone (fun port hport => hcmd ?_)
    rw [hthird port { hport with }, Listener.moved, intBytes_length]
    rfl
  rw [if_neg hcmd]
  refine Triple.bind (closeSocket_triple ps _) (fun _ => Triple.ret (fun w _ h => ?_))
  refine ⟨_, h, congrArg (· + 1) hcloses, hnone, fun port hport => ?_⟩
  obtain ⟨-, -, hname⟩ := hsecond port { hport with }
  rw [hname, hthird port { hport with }, Option.getD_some, Option.getD_some, intOfBytes_intBytes]

/-- What the thread holds while it publishes a frame that has been received from `p`. -/
def Publishing (X : Setup) (t : Prop) (ps : List Peer) (p : Peer) (cm : ConnectionManager ℕ)
    (w : World) : Prop :=
  w.thread = .running ∧ w.holder = some .listener ∧ cm = w.manager ∧ w.peers = ps ++ [p] ∧
    w.reading = ps.length ∧ w.untested = none ∧ (t → ∀ p' ∈ ps, Settled X p')

theorem publishing_stable (ps : List Peer) (p : Peer) (cm : ConnectionManager ℕ) :
    (outline X q t).Stable .listener (Publishing X t ps p cm) := by
  rintro w w' ⟨hthread, hholder, rfl, hpeers, hreading, huntested, hsettled⟩ hrely -
  exact ⟨hrely.running.2 hthread, hrely.holder.2 hholder, (hrely.manager hholder).symm,
    hrely.peers.trans hpeers, hrely.reading.trans hreading, hrely.untested.trans huntested, hsettled⟩

/-- While the listener thread runs no client is connected and no command waits. -/
theorem Inv.unconnected (h : Inv X q t w) (hthread : w.thread = .running)
    (hholder : w.holder ≠ some .main) :
    w.manager.intercomm = none ∧ w.manager.newQuery = false := by
  have hdestroying : w.destroying = false := by
    by_contra hne
    have habsent := (h.destroying (by simpa using hne)).1
    exact absurd (hthread.symm.trans habsent) (by simp)
  exact (h.consistent hholder hdestroying).listening (.inr hthread)

/-- The frame that is published waits to be taken, and the peer is settled. -/
theorem Inv.publish {ps : List Peer} {p : Peer} {cm : ConnectionManager ℕ} (h : Inv X q t w)
    (hat : Publishing X t ps p cm w) {clientPort : StdString} {cmd : Int32} {r : Unit}
    (hp : Settled X { p with published := some (clientPort, cmd) })
    (hperform : performListener (.unlock (cm.publish clientPort cmd)) w r w') :
    Inv X q t w' ∧ Leaving X t w' ∧ w'.untested = none := by
  obtain ⟨hthread, hholder, rfl, hpeers, hreading, huntested, hsettled⟩ := hat
  obtain ⟨hcomm, hquery⟩ := h.unconnected hthread (by simp [hholder])
  have hport : (w.manager.publish clientPort cmd).clientPort = clientPort :=
    if_pos (by rw [hcomm]; rfl)
  have hpeers' : w'.peers = ps ++ [{ p with published := some (clientPort, cmd) }] := by
    rw [hperform]
    show w.peers.modify w.reading _ = _
    rw [hpeers, hreading, modify_last, hport]
    rfl
  have hall : t → ∀ p' ∈ w'.peers, Settled X p' := by
    intro ht p' hp'
    rw [hpeers'] at hp'
    rcases List.mem_append.1 hp' with hp' | hp'
    · exact hsettled ht p' hp'
    · rw [List.mem_singleton.1 hp']
      exact hp
  have hanswered : ∀ p' ∈ w'.peers, ∀ port,
      p'.published = some (port, Command.connect.toInt32) →
        Answered w port ∨ Pending (w.manager.publish clientPort cmd) port := by
    intro p' hp' port hpublished
    rw [hpeers'] at hp'
    rcases List.mem_append.1 hp' with hp' | hp'
    · -- nothing was waiting, so it has been answered
      have hbefore := h.answered p' (by rw [hpeers]; exact List.mem_append_left _ hp') port hpublished
      exact .inl (hbefore.resolve_right (fun hpending => by simp [Pending, hquery] at hpending))
    · rw [List.mem_singleton.1 hp'] at hpublished
      obtain ⟨rfl, rfl⟩ := Prod.mk.inj (Option.some.inj hpublished)
      exact .inr ⟨rfl, hport, rfl⟩
  subst hperform
  refine ⟨?_, ⟨.inl rfl, by simp, hall⟩, huntested⟩
  exact {
    settled := fun ht _ => hall ht
    consistent := fun _ _ => {
      listening := fun hlistening => by simp [Thread.Listening] at hlistening
      pending := fun _ => hcomm
      serving := fun _ hfalse => by simp [ConnectionManager.publish] at hfalse
      newer := fun _ _ => rfl
      joinable := fun _ => by simp }
    answered := hanswered
    destroying := fun hdestroying =>
      absurd (hthread.symm.trans (h.destroying hdestroying).1) (by simp) }

theorem publishFrame_triple (ps : List Peer) (f : Bytes × Int32) :
    (outline X q t).Triple .listener (Received X t ps (some f))
      (Listener.publishFrame f.1 f.2)
      (fun _ w => Leaving X t w ∧ w.untested = none) := by
  have hstable : (outline X q t).Stable .listener (Received X t ps (some f)) := by
    rintro w w' ⟨p, hat, hp⟩ hrely -
    exact ⟨p, hat.stable hrely, hp⟩
  have hlock : (outline X q t).Triple .listener (Received X t ps (some f)) Listener.lockMutex
      (fun cm w => ∃ p, (p.closes = 1 ∧ ∀ port, p.Connects X port → f =
        (Listener.portNameArray X.maxPortName (port.bytes ++ [0]), Command.connect.toInt32)) ∧
          Publishing X t ps p cm w) := by
    refine listener_op hstable (fun _ _ _ => trivial) ?_
    rintro w r w' hinv ⟨p, hat, hcloses, -, hframe⟩ ⟨hholder, rfl, rfl⟩ -
    refine ⟨?_, p, ⟨hcloses, fun port hport => Option.some.inj (hframe port hport)⟩,
      hat.running.1, rfl, rfl, hat.peers, hat.reading, hat.untested, hat.settled⟩
    exact { hinv with
      consistent := fun _ hdestroying => { hinv.consistent (by simp [hholder]) hdestroying with } }
  refine Triple.bind hlock (fun cm => Triple.exists (fun p => Triple.pure ?_))
  rintro ⟨hcloses, hframe⟩
  have hstable := publishing_stable (X := X) (q := q) (t := t) ps p cm
  cases hstring : Listener.cString f.1 with
  | none => exact overrun_triple hstable
  | some clientPort =>
      refine listener_op hstable (fun w _ h => ⟨h.1, h.2.1⟩) ?_
      rintro w r w' hinv hat hperform -
      refine hinv.publish hat ⟨hcloses, fun port hport => ?_⟩ hperform
      have hf := hframe port { hport with }
      have hlen := hport.length
      have hmax := X.maxPortName_lt
      rw [hf, Listener.cString_terminated _ hport.zero (by omega)] at hstring
      rw [← Option.some.inj hstring, hf]

/-! ## The loops -/

/-- A connection has just been accepted. -/
def Accepted (X : Setup) (t : Prop) (i : ℕ) (w : World) : Prop :=
  ∃ ps p, (i = ps.length ∧ p.closes = 0 ∧ p.published = none ∧ p.taken = 0) ∧
    Running w ∧ w.peers = ps ++ [p] ∧ w.reading = ps.length ∧ w.untested = some ps.length ∧
      (t → ∀ p' ∈ ps, Settled X p')

theorem accepted_stable (i : ℕ) : (outline X q t).Stable .listener (Accepted X t i) := by
  rintro w w' ⟨ps, p, hp, hrunning, hpeers, hreading, huntested, hsettled⟩ hrely -
  exact ⟨ps, p, hp, hrunning.stable hrely, hrely.peers.trans hpeers, hrely.reading.trans hreading,
    hrely.untested.trans huntested, hsettled⟩

/-- A connection that has been accepted is served, if `exitThread` is not set by then. -/
theorem afterAccept_triple (i : ℕ) :
    (outline X q t).Triple .listener (Accepted X t i)
      (Listener.afterAccept X.maxPortName (some i)) (listenerPost X t) := by
  have hload : (outline X q t).Triple .listener (Accepted X t i) Listener.loadExitThread
      (fun r w => (r = true → Leaving X t w ∧ w.untested = none) ∧
        (r = false → ∃ ps p, (i = ps.length ∧ p.closes = 0 ∧ p.published = none ∧ p.taken = 0) ∧
          At X t ps p w)) := by
    refine listener_op (accepted_stable i) (fun _ _ _ => trivial) ?_
    rintro w r w' hinv ⟨ps, p, hp, hrunning, hpeers, hreading, huntested, hsettled⟩ ⟨rfl, rfl⟩ hcond
    have hinv' : Inv X q t { w with untested := none } :=
      { hinv with
        consistent := fun hholder hdestroying =>
          { hinv.consistent hholder hdestroying with } }
    refine ⟨hinv', fun hexit => ⟨⟨.inr ⟨hrunning.1, hexit⟩, hrunning.2, fun ht => ?_⟩, rfl⟩,
      fun _ => ⟨ps, p, hp, hrunning, hpeers, hreading, rfl, hsettled⟩⟩
    have hnone : w.untested = none := hcond.2 ht hexit
    exact absurd (huntested.symm.trans hnone) (by simp)
  simp only [Listener.afterAccept]
  refine Triple.bind hload (fun exit => ?_)
  cases exit with
  | true => exact Triple.ret (fun w _ h => h.1 rfl)
  | false =>
      have hserve : ∀ k, k none = pure .listening →
          (∀ f, k (some f) = (Listener.publishFrame f.1 f.2 >>= fun _ => pure .leaving)) →
          (outline X q t).Triple .listener
            (fun w => ∃ ps p, (i = ps.length ∧ p.closes = 0 ∧ p.published = none ∧ p.taken = 0) ∧
              At X t ps p w)
            (Listener.recvFrame X.maxPortName i >>= k) (listenerPost X t) := by
        intro k hnoFrame hframe
        refine Triple.exists (fun ps => Triple.exists (fun p => Triple.pure ?_))
        rintro ⟨rfl, hcloses, hnone, htaken⟩
        refine Triple.bind (recvFrame_triple ps hcloses hnone htaken) (fun frame => ?_)
        cases frame with
        | some f =>
            rw [hframe]
            exact Triple.bind (publishFrame_triple ps f) (fun _ => Triple.ret (fun _ _ h => h))
        | none =>
            rw [hnoFrame]
            refine Triple.ret ?_
            rintro w - ⟨p', hat, hcloses', -, hconnects⟩
            refine ⟨hat.running, hat.untested, fun ht p'' hp'' => ?_⟩
            rw [hat.peers] at hp''
            rcases List.mem_append.1 hp'' with hp'' | hp''
            · exact hat.settled ht p'' hp''
            · rw [List.mem_singleton.1 hp'']
              exact ⟨hcloses', fun port hport => absurd (hconnects port hport) (by simp)⟩
      exact Triple.conseq (hserve _ rfl (fun _ => rfl)) (fun w _ h => h.2 rfl) (fun _ _ _ h => h)

theorem load_triple :
    (outline X q t).Triple .listener (Clean X t) Listener.loadExitThread
      (fun r w => (r = true → w.exitThread = true) ∧ Clean X t w) := by
  refine listener_op clean_stable (fun _ _ _ => trivial) ?_
  rintro w r w' hinv ⟨hrunning, huntested, hsettled⟩ ⟨rfl, rfl⟩ -
  refine ⟨?_, id, hrunning, rfl, hsettled⟩
  exact { hinv with
    consistent := fun hholder hdestroying => { hinv.consistent hholder hdestroying with } }

theorem Clean.leaving (h : Clean X t w) (hexit : w.exitThread = true) :
    Leaving X t w ∧ w.untested = none :=
  ⟨⟨.inr ⟨h.1.1, hexit⟩, h.1.2, h.2.2⟩, h.2.1⟩

theorem accept_triple :
    (outline X q t).Triple .listener (Clean X t) Listener.acceptSocket
      (fun r w => match r with
        | .ok (some i) => Accepted X t i w
        | _ => Clean X t w) := by
  refine listener_op clean_stable (fun w _ h => h.1.1) ?_
  rintro w r w' hinv hclean (⟨e, rfl, rfl⟩ | ⟨rfl, rfl⟩ | ⟨frame, arrived, rfl, rfl⟩) -
  · exact ⟨hinv, hclean⟩
  · exact ⟨hinv, hclean⟩
  · obtain ⟨hrunning, huntested, hsettled⟩ := hclean
    refine ⟨?_, w.peers, ⟨frame, arrived, 0, 0, none⟩, ⟨rfl, rfl, rfl, rfl⟩, hrunning, rfl, rfl, rfl,
      hsettled⟩
    exact { hinv with
      settled := fun _ hne => absurd hrunning.1 hne
      consistent := fun hholder hdestroying => { hinv.consistent hholder hdestroying with }
      answered := fun p hp port hport => by
        rcases List.mem_append.1 hp with hp | hp
        · exact hinv.answered p hp port hport
        · rw [List.mem_singleton.1 hp] at hport
          exact absurd hport (by simp) }

/-- `listenForClient` is done with every connection it has accepted when it ends. -/
theorem listenForClient_triple (l : Listener.Label) :
    (outline X q t).Triple .listener (listenerPost X t l)
      (Listener.listenForClient X.maxPortName l) (listenerPost X t) := by
  cases l with
  | waiting =>
      have hbegin : (outline X q t).Triple .listener (listenerPost X t .waiting)
          Listener.beginThread (fun _ => Clean X t) := by
        refine listener_op ?_ (fun _ _ _ => trivial) ?_
        · rintro w w' ⟨⟨hrunning, hpublished⟩, hholder, huntested⟩ hrely -
          exact ⟨⟨fun h => hrunning (hrely.running.1 h), fun h => hpublished (hrely.published.1 h)⟩,
            fun h => hholder (hrely.holder.1 h), hrely.untested.trans huntested⟩
        · rintro w r w' hinv ⟨-, hholder, huntested⟩ ⟨hcreated, rfl⟩ -
          have hsettled : t → ∀ p ∈ w.peers, Settled X p :=
            fun ht => hinv.settled ht (by simp [hcreated])
          refine ⟨?_, ⟨rfl, hholder⟩, huntested, hsettled⟩
          exact { hinv with
            settled := fun ht _ => hsettled ht
            consistent := fun hne hdestroying =>
              let hc := hinv.consistent hne hdestroying
              { hc with
                listening := fun _ => hc.listening (.inl hcreated)
                serving := fun _ _ _ => .inr rfl
                joinable := fun _ => by simp }
            destroying := fun hdestroying =>
              absurd (hcreated.symm.trans (hinv.destroying hdestroying).1) (by simp) }
      have hopen : (outline X q t).Triple .listener (Clean X t) Listener.openListenSocket
          (fun _ => Clean X t) := by
        refine listener_op clean_stable (fun _ _ _ => trivial) ?_
        rintro w r w' hinv hclean rfl -
        exact ⟨hinv, hclean⟩
      refine Triple.bind hbegin (fun _ => Triple.bind hopen (fun result => ?_))
      cases result with
      | error e => exact raise_triple clean_stable
      | ok _ => exact Triple.ret (fun _ _ h => h)
  | listening =>
      refine Triple.bind load_triple (fun exit => ?_)
      cases exit with
      | true => exact Triple.ret (fun w _ h => h.2.leaving (h.1 rfl))
      | false => exact Triple.ret (fun w _ h => h.2)
  | accepting =>
      refine Triple.bind load_triple (fun exit => ?_)
      cases exit with
      | true =>
          have hleave : (outline X q t).Triple .listener (Clean X t)
              (Listener.afterAccept X.maxPortName none) (listenerPost X t) := by
            simp only [Listener.afterAccept]
            refine Triple.bind load_triple (fun exit => ?_)
            cases exit with
            | true => exact Triple.ret (fun w _ h => h.2.leaving (h.1 rfl))
            | false => exact Triple.ret (fun w _ h => h.2)
          exact Triple.conseq hleave (fun w _ h => h.2) (fun _ _ _ h => h)
      | false =>
          refine Triple.conseq (Triple.bind accept_triple (fun accepted => ?_)) (fun w _ h => h.2)
            (fun _ _ _ h => h)
          match accepted with
          | .error e => exact raise_triple clean_stable
          | .ok none => exact Triple.ret (fun _ _ h => h)
          | .ok (some i) => exact afterAccept_triple i
  | leaving =>
      have hstable : (outline X q t).Stable .listener (listenerPost X t .leaving) :=
        fun _ _ h hrely _ => ⟨h.1.stable hrely, hrely.untested.trans h.2⟩
      have hclose : (outline X q t).Triple .listener (listenerPost X t .leaving)
          Listener.closeListenSocket (fun _ => listenerPost X t .leaving) := by
        refine listener_op hstable (fun _ _ _ => trivial) ?_
        rintro w r w' hinv hat rfl -
        exact ⟨hinv, hat⟩
      have hfinish : (outline X q t).Triple .listener (listenerPost X t .leaving)
          Listener.finishThread (fun _ => listenerPost X t .waiting) := by
        refine listener_op hstable (fun w _ h => h.1.1) ?_
        rintro w r w' hinv ⟨⟨hthread, hholder, hsettled⟩, huntested⟩ rfl -
        refine ⟨?_, by simp, hholder, huntested⟩
        exact { hinv with
          settled := fun ht _ => hsettled ht
          consistent := fun hne hdestroying => {
            hinv.consistent hne hdestroying with
            listening := fun hlistening => by simp [Thread.Listening] at hlistening
            serving := fun hcomm hquery hexit => by
              -- it ends unasked only when it has published a frame
              have hpublished :=
                hthread.resolve_right (fun h => absurd (hexit.symm.trans h.2) (by simp))
              have hbefore := (hinv.consistent hne hdestroying).serving hcomm hquery hexit
              simp [Thread.Listening, hpublished] at hbefore
            joinable := fun _ => by simp }
          destroying := fun hdestroying => by
            have habsent := (hinv.destroying hdestroying).1
            simp [habsent] at hthread }
      exact Triple.bind hclose (fun _ => Triple.bind hfinish (fun _ => Triple.ret (fun _ _ h => h)))

end Serving

end LibIS
