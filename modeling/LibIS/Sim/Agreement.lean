import LibIS.Sim.Lockstep

set_option autoImplicit false

/-! # Agreement of the simulation ranks

Rank 0 alone has a listener and probes the client; every other rank follows the broadcasts. All
ranks make the same calls: some number of `process()` calls, then perhaps the destructor. Every call
of rank 0 and the same call of another rank are in lockstep (`nthCall_lockstep`), so the ranks agree
along any runs, at whatever point each of them stands. -/

open ByteCodec Prog

namespace LibIS

variable {Conn : Type}

namespace ConnectionManager

/-! ## The parts of a call that concern one rank only -/

theorem sendAll_local (comm : Conn) (rank : ℕ) (ms : List Bytes) :
    Local (fun _ => True) (sendAll comm rank ms) := by
  induction ms with
  | nil => trivial
  | cons m ms ih => exact ⟨rfl, fun _ => ih⟩

theorem release_local (cm : ConnectionManager Conn) : Local (fun _ => True) (release cm) := by
  rw [release]
  cases cm.intercomm with
  | none => trivial
  | some comm => exact ⟨rfl, fun _ => trivial⟩

theorem restartListener_local : Local (fun _ => True) (restartListener : SimProg Conn Unit) := by
  refine ⟨rfl, fun joinable => ?_⟩
  cases joinable with
  | false => trivial
  | true => exact ⟨rfl, fun _ => ⟨rfl, fun _ => trivial⟩⟩

theorem stopListener_local : Local (fun _ => True) (stopListener : SimProg Conn Unit) := by
  refine ⟨rfl, fun joinable => ?_⟩
  cases joinable with
  | false => trivial
  | true => exact ⟨rfl, fun _ => ⟨rfl, fun _ => trivial⟩⟩

theorem disconnectClient_local (simRank : ℕ) (cm : ConnectionManager Conn) :
    Local (fun cm' => cm' = { cm with intercomm := none }) (disconnectClient simRank cm) := by
  rw [disconnectClient]
  refine (release_local cm).bind (fun _ _ => ?_)
  by_cases hrank : simRank = 0
  · rw [if_pos hrank]
    exact restartListener_local.bind (fun _ _ => rfl)
  · rw [if_neg hrank]
    exact rfl

/-- Rank 0 finds a command in the published frame or with the client, and there is no other
    place. -/
theorem poll_root (cm : ConnectionManager Conn) :
    Local (fun x : Int32 × ConnectionManager Conn =>
      x.2 = { cm with clientCommand := x.2.clientCommand } ∧ (x.1 = 0 → x.2 = cm) ∧
        (cm.intercomm = none → x.2 = cm ∧ (x.1 ≠ 0 → cm.newQuery = true))) (poll 0 cm) := by
  obtain ⟨intercomm, clientPort, clientCommand, newQuery⟩ := cm
  cases newQuery with
  | true => exact ⟨rfl, fun _ => rfl, fun _ => ⟨rfl, fun _ => rfl⟩⟩
  | false =>
      cases intercomm with
      | none => exact ⟨rfl, fun _ => rfl, fun _ => ⟨rfl, fun hne => absurd rfl hne⟩⟩
      | some comm =>
          refine ⟨rfl, fun ready => ?_⟩
          cases ready with
          | false => exact ⟨rfl, fun _ => rfl, fun hnone => absurd hnone (by simp)⟩
          | true =>
              have hone : (1 : Int32) ≠ 0 := by decide
              exact ⟨rfl, fun _ => ⟨rfl, fun _ => ⟨rfl, fun h => absurd h hone,
                fun hnone => absurd hnone (by simp)⟩⟩⟩

/-- Every other rank looks only at its own fields. -/
theorem poll_rank {simRank : ℕ} (hrank : simRank ≠ 0) (cm : ConnectionManager Conn) :
    ∃ haveQuery, poll simRank cm = .ret (haveQuery, cm) := by
  obtain ⟨intercomm, clientPort, clientCommand, newQuery⟩ := cm
  cases newQuery with
  | true => exact ⟨1, rfl⟩
  | false =>
      cases intercomm with
      | none => exact ⟨0, rfl⟩
      | some comm => exact ⟨0, by simp [poll, hrank]⟩

/-- Only a rank with a client waits for a command. -/
theorem awaitCommand_root (cm : ConnectionManager Conn) :
    Local (fun cm' => cm' = { cm with clientCommand := cm'.clientCommand } ∧
      (cm.intercomm = none → cm' = cm)) (awaitCommand 0 cm) := by
  obtain ⟨intercomm, clientPort, clientCommand, newQuery⟩ := cm
  cases newQuery with
  | true => exact ⟨rfl, fun _ => rfl⟩
  | false =>
      cases intercomm with
      | none => exact ⟨rfl, fun _ => rfl⟩
      | some comm => exact ⟨rfl, fun _ => ⟨rfl, fun hnone => absurd hnone (by simp)⟩⟩

theorem awaitCommand_rank {simRank : ℕ} (hrank : simRank ≠ 0) (cm : ConnectionManager Conn) :
    awaitCommand simRank cm = .ret cm := by
  obtain ⟨intercomm, clientPort, clientCommand, newQuery⟩ := cm
  cases newQuery with
  | true => rfl
  | false =>
      cases intercomm with
      | none => rfl
      | some comm => simp [awaitCommand, hrank]

/-! ## Connecting the client -/

theorem stringBytes_lt (port : StdString) : (stringBytes port).length < 2 ^ 63 := by
  have h := port.size_lt
  rw [stringBytes_length]
  omega

theorem serialize_port (port : StdString) :
    serialize (writeString port) = .ok (stringBytes port) :=
  serialize_of_emits (emits_writeString port) (stringBytes_lt port)

theorem decode_port (port : StdString) :
    decodeHeader (readString unlimited) (stringBytes port) = .ok port := by
  have hparse : Parses (readString unlimited) (stringBytes port) port :=
    parses_readString port (fun _ => rfl)
  exact decodeHeader_of_parses hparse ((stringBytes_lt port).trans (by norm_num))

/-- How `connectClient` ends on rank 0, with the fields `cm₀`, and on another rank. The guarded
    fields stay `c₀` and `c`. -/
structure Connected (cm₀ c₀ c : ConnectionManager Conn)
    (x₀ : Except Fault Unit × ConnectionManager Conn) (c₀' : ConnectionManager Conn)
    (x : Except Fault Unit × ConnectionManager Conn) (c' : ConnectionManager Conn) : Prop where
  fields₀ : c₀' = c₀
  fields : c' = c
  result : x.1 = x₀.1
  connected : x.2.intercomm.isSome = x₀.2.intercomm.isSome
  failed : ∀ e, x₀.1 = .error e → x₀.2 = cm₀
  ok : x₀.1 = .ok () → x₀.2.intercomm.isSome = true

/-- Rank 0 sends its port, which is the one that the others decode and connect to. -/
theorem connectClient_lockstep {simRank : ℕ} (hrank : simRank ≠ 0) {lax : Prop}
    {good : StdString → Prop} {cm₀ cm : ConnectionManager Conn}
    (hconn : cm.intercomm.isSome = cm₀.intercomm.isSome)
    (hgood : cm₀.intercomm = none → good cm₀.clientPort) (c₀ c : ConnectionManager Conn) :
    Lockstep lax good (Connected cm₀ c₀ c) c₀ (connectClient 0 cm₀) c
      (connectClient simRank cm) := by
  obtain ⟨intercomm₀, port, command₀, newQuery₀⟩ := cm₀
  obtain ⟨intercomm, clientPort, command, newQuery⟩ := cm
  cases intercomm₀ with
  | some comm₀ =>
      obtain ⟨comm, rfl⟩ := Option.isSome_iff_exists.1 hconn
      exact .ret ⟨rfl, rfl, rfl, rfl, fun _ _ => rfl, fun hok => absurd hok (by simp)⟩
  | none =>
      obtain rfl : intercomm = none := by simpa using hconn
      have hsize : leValue (leBytes 8 (stringBytes port).length) = (stringBytes port).length :=
        leValue_leBytes_of_lt _ _ ((stringBytes_lt port).trans (by norm_num))
      simp only [connectClient, bcastPort, if_true, if_neg hrank, serialize_port, op_bind, vis_bind,
        pure_eq, ret_bind]
      refine .bcast (by rw [leBytes_length, leBytes_length]) (.bcast ?_ ?_)
      · rw [zeros_length, hsize]
      · rw [decode_port]
        refine .connect (hgood rfl) (fun r₀ r hsame => ?_)
        cases r₀ with
        | error e₀ =>
            cases r with
            | error e =>
                obtain rfl : e = e₀ := Except.error.inj hsame
                exact .ret ⟨rfl, rfl, rfl, rfl, fun _ _ => rfl, fun hok => absurd hok (by simp)⟩
            | ok comm => exact absurd hsame (by simp [Except.map])
        | ok comm₀ =>
            cases r with
            | error e => exact absurd hsame (by simp [Except.map])
            | ok comm =>
                exact .ret ⟨rfl, rfl, rfl, rfl, fun e he => absurd he (by simp), fun _ => rfl⟩

/-! ## A call of `process` -/

/-- Where the port of the next client stands: a published frame that has not been acted on carries
    it, and without one no command to connect is left over. `frame` is the port of the last
    published frame. -/
structure PortReady (cm : ConnectionManager Conn) (frame : Option StdString) : Prop where
  pending : cm.intercomm = none → cm.newQuery = true → frame = some cm.clientPort
  none_left : cm.intercomm = none → cm.newQuery = false →
    cm.clientCommand ≠ Command.connect.toInt32

theorem PortReady.of_isSome {cm : ConnectionManager Conn} (frame : Option StdString)
    (h : cm.intercomm.isSome = true) : PortReady cm frame :=
  ⟨fun hnone => absurd h (by simp [hnone]), fun hnone => absurd h (by simp [hnone])⟩

theorem PortReady.of_done {cm : ConnectionManager Conn} (frame : Option StdString)
    (hnew : cm.newQuery = false) (hcmd : cm.clientCommand = -1) : PortReady cm frame :=
  ⟨fun _ hpending => absurd (hnew.symm.trans hpending) (by decide),
    fun _ _ => by rw [hcmd]; decide⟩

theorem PortReady.init : PortReady (init : ConnectionManager Conn) none := by
  have hne : Command.invalid.toInt32 ≠ Command.connect.toInt32 := by decide
  exact ⟨fun _ hnew => absurd hnew (by simp [ConnectionManager.init]), fun _ _ => hne⟩

theorem PortReady.publish {cm : ConnectionManager Conn} (portName : StdString) (cmd : Int32) :
    PortReady (publish portName cmd cm) (some portName) := by
  constructor
  · intro hnone _
    have hcomm : cm.intercomm = none := hnone
    simp [ConnectionManager.publish, hcomm]
  · intro _ hnew
    exact absurd hnew (by simp [ConnectionManager.publish])

/-- How a call ends on rank 0 and on another rank: alike, and both connected or both not. -/
structure Alike {ε : Type} (frame : Option StdString) (e₀ : ε) (cm₀ : ConnectionManager Conn)
    (e : ε) (cm : ConnectionManager Conn) : Prop where
  ends : e = e₀
  connected : cm.intercomm.isSome = cm₀.intercomm.isSome
  port : PortReady cm₀ frame

/-- How `runCommand` ends on both. -/
structure Ran (frame : Option StdString) (c₀ c : ConnectionManager Conn)
    (x₀ : Branch × ConnectionManager Conn) (c₀' : ConnectionManager Conn)
    (x : Branch × ConnectionManager Conn) (c' : ConnectionManager Conn) : Prop where
  fields₀ : c₀' = c₀
  fields : c' = c
  alike : Alike frame x₀.1 x₀.2 x.1 x.2

theorem crash_quiet {α : Type} : Quiet (crash : SimProg Conn α) :=
  ⟨rfl, fun r => r.elim⟩

/-- What `handleQuery` does when it has the ping of client rank `myClient`. -/
theorem answerPing_quiet (comm : Conn) (myClient : ℕ) (state : Except Fault (List Bytes)) :
    Quiet (match state with
      | .error _ => crash
      | .ok msgs => sendAll comm myClient msgs) := by
  cases state with
  | error e => exact crash_quiet
  | ok msgs => exact (sendAll_local comm myClient msgs).quiet

theorem handleQuery_quiet (state : Except Fault (List Bytes)) (cm : ConnectionManager Conn) :
    Quiet (handleQuery state cm) := by
  rw [handleQuery.eq_def]
  cases cm.intercomm with
  | none => exact crash_quiet
  | some comm => exact ⟨rfl, fun myClient => ⟨rfl, fun _ => answerPing_quiet comm myClient state⟩⟩

/-- A query is answered on ranks that have a client. Either rank may fail at it. -/
theorem handleQuery_lockstep {lax : Prop} {good : StdString → Prop}
    {state₀ state : Except Fault (List Bytes)} (hstate : lax ∨ ∃ msgs, state = .ok msgs)
    {cm₀ cm : ConnectionManager Conn} (hconn : cm.intercomm.isSome = cm₀.intercomm.isSome)
    (c₀ c : ConnectionManager Conn) :
    Lockstep lax good (fun _ c₀' _ c' => (c₀' = c₀ ∧ c' = c) ∧ cm₀.intercomm.isSome = true) c₀
      (handleQuery state₀ cm₀) c (handleQuery state cm) := by
  obtain ⟨intercomm₀, clientPort₀, clientCommand₀, newQuery₀⟩ := cm₀
  cases intercomm₀ with
  | none => exact .root_crashed (handleQuery_quiet state cm)
  | some comm₀ =>
      obtain ⟨intercomm, clientPort, clientCommand, newQuery⟩ := cm
      obtain ⟨comm, rfl⟩ := Option.isSome_iff_exists.1 hconn
      cases state₀ with
      | error e₀ =>
          refine .root rfl ⟨(0 : ℕ)⟩ (fun myClient₀ c₁ hc₁ => ?_)
          refine .root rfl ⟨([] : Bytes)⟩ (fun ping₀ c₂ hc₂ => ?_)
          exact .root_crashed (handleQuery_quiet state _)
      | ok msgs₀ =>
          cases state with
          | error e =>
              refine .rank rfl ⟨(0 : ℕ)⟩ (fun myClient c₁ hc₁ => ?_)
              refine .rank rfl ⟨([] : Bytes)⟩ (fun ping c₂ hc₂ => ?_)
              have hlax : lax := hstate.resolve_right (by simp)
              exact .rank_crashed hlax (handleQuery_quiet (.ok msgs₀) _)
          | ok msgs =>
              have hlocal₀ : Local (fun _ => True) (handleQuery (.ok msgs₀)
                  ⟨some comm₀, clientPort₀, clientCommand₀, newQuery₀⟩) :=
                ⟨rfl, fun myClient => ⟨rfl, fun _ => sendAll_local comm₀ myClient msgs₀⟩⟩
              have hlocal : Local (fun _ => True) (handleQuery (.ok msgs)
                  ⟨some comm, clientPort, clientCommand, newQuery⟩) :=
                ⟨rfl, fun myClient => ⟨rfl, fun _ => sendAll_local comm myClient msgs⟩⟩
              exact .of_local hlocal₀ hlocal (fun _ _ _ _ => ⟨⟨rfl, rfl⟩, rfl⟩)

/-- What `runCommand` does when `connectClient` has ended. -/
theorem afterConnect_quiet (simRank : ℕ) (x : Except Fault Unit × ConnectionManager Conn) :
    Quiet (match x.1, x.2.intercomm with
      | .error e, _ => (return (.threw e, x.2) : SimProg Conn (Branch × ConnectionManager Conn))
      | .ok _, none => crash
      | .ok _, some comm =>
          if simRank = 0 then do
            sendQuit comm 0
            return (.connect, done x.2)
          else
            return (.connect, done x.2)) := by
  obtain ⟨result, cm⟩ := x
  cases result with
  | error e => trivial
  | ok u =>
      cases cm.intercomm with
      | none => exact crash_quiet
      | some comm =>
          by_cases hrank : simRank = 0
          · simp only [if_pos hrank]
            exact ⟨rfl, fun _ => trivial⟩
          · simp only [if_neg hrank]
            trivial

theorem runCommand_lockstep {simRank : ℕ} (hrank : simRank ≠ 0) {lax : Prop}
    {frame : Option StdString} {state₀ state : Except Fault (List Bytes)}
    (hstate : lax ∨ ∃ msgs, state = .ok msgs) {cm₀ cm : ConnectionManager Conn}
    (hcommand : cm.clientCommand = cm₀.clientCommand)
    (hconn : cm.intercomm.isSome = cm₀.intercomm.isSome)
    (hnew : cm₀.intercomm = none → cm₀.newQuery = true) (hport : PortReady cm₀ frame)
    (c₀ c : ConnectionManager Conn) :
    Lockstep lax (frame = some ·) (Ran frame c₀ c) c₀ (runCommand 0 state₀ cm₀) c
      (runCommand simRank state cm) := by
  rw [runCommand, runCommand, hcommand]
  by_cases hconnect : cm₀.clientCommand = Command.connect.toInt32
  · rw [if_pos hconnect, if_pos hconnect]
    -- without a client the command has come with a frame, whose port is the one to connect to
    have hgood : cm₀.intercomm = none → frame = some cm₀.clientPort :=
      fun hnone => hport.pending hnone (hnew hnone)
    refine Lockstep.bind (connectClient_lockstep hrank hconn hgood c₀ c) ?_ ?_ ?_
    · exact afterConnect_quiet 0
    · exact afterConnect_quiet simRank
    rintro ⟨result₀, cm₁⟩ c₁ ⟨result, cm₂⟩ c₂ ⟨rfl, rfl, hresult, hconn', hfailed, hok⟩
    obtain rfl : result = result₀ := hresult
    cases result with
    | error e =>
        obtain rfl : cm₁ = cm₀ := hfailed e rfl
        exact .ret ⟨rfl, rfl, rfl, hconn', hport⟩
    | ok u =>
        have hsome : cm₁.intercomm.isSome = true := hok rfl
        obtain ⟨comm₁, hcomm₁⟩ := Option.isSome_iff_exists.1 hsome
        obtain ⟨comm₂, hcomm₂⟩ : ∃ comm, cm₂.intercomm = some comm :=
          Option.isSome_iff_exists.1 (hconn'.trans hsome)
        simp only [hcomm₁, hcomm₂, if_true, if_neg hrank]
        -- only rank 0 tells the client not to quit
        refine .root rfl ⟨()⟩ (fun r c₃ hc₃ => ?_)
        obtain rfl : c₃ = c₁ := hc₃
        exact .ret ⟨rfl, rfl, rfl, hconn', .of_isSome frame hsome⟩
  · rw [if_neg hconnect, if_neg hconnect]
    by_cases hquery : cm₀.clientCommand = Command.query.toInt32
    · rw [if_pos hquery, if_pos hquery]
      refine Lockstep.bind (handleQuery_lockstep hstate hconn c₀ c) (fun _ => trivial)
        (fun _ => trivial) ?_
      rintro _ _ _ _ ⟨⟨rfl, rfl⟩, hsome⟩
      exact .ret ⟨rfl, rfl, rfl, hconn, .of_isSome frame hsome⟩
    · rw [if_neg hquery, if_neg hquery]
      by_cases hdisconnect : cm₀.clientCommand = Command.disconnect.toInt32
      · rw [if_pos hdisconnect, if_pos hdisconnect]
        -- to disconnect, a rank needs nothing but its own fields
        have hlocal : ∀ (rank : ℕ) (cm : ConnectionManager Conn),
            Local (fun x : Branch × ConnectionManager Conn => x.1 = .disconnect ∧
              x.2 = done { cm with intercomm := none }) (do
                let cm ← disconnectClient rank cm
                return (.disconnect, done cm)) := by
          intro rank cm
          refine (disconnectClient_local rank cm).bind ?_
          rintro _ rfl
          exact ⟨rfl, rfl⟩
        refine .of_local (hlocal 0 cm₀) (hlocal simRank cm) ?_
        rintro ⟨_, _⟩ ⟨_, _⟩ ⟨rfl, rfl⟩ ⟨rfl, rfl⟩
        exact ⟨rfl, rfl, rfl, rfl, .of_done frame rfl rfl⟩
      · rw [if_neg hdisconnect, if_neg hdisconnect]
        exact .ret ⟨rfl, rfl, rfl, hconn, hport⟩

theorem process_lockstep {simRank : ℕ} (hrank : simRank ≠ 0) {lax : Prop}
    {frame : Option StdString} {state₀ state : Except Fault (List Bytes)}
    (hstate : lax ∨ ∃ msgs, state = .ok msgs) {cm₀ cm : ConnectionManager Conn}
    (hconn : cm.intercomm.isSome = cm₀.intercomm.isSome) (hport : PortReady cm₀ frame) :
    Lockstep lax (frame = some ·) (Alike frame) cm₀ (process 0 state₀) cm
      (process simRank state) := by
  simp only [process, op_bind]
  refine .root rfl ⟨cm₀⟩ (fun r₀ c₀ hlock₀ => ?_)
  obtain ⟨rfl, rfl⟩ := hlock₀
  refine .rank rfl ⟨cm⟩ (fun r c hlock => ?_)
  obtain ⟨rfl, rfl⟩ := hlock
  refine .root_bind (poll_root c₀) ?_
  rintro ⟨haveQuery₀, cm₁⟩ ⟨hcommand, hidle, hnone⟩
  obtain ⟨haveQuery, hpoll⟩ := poll_rank hrank c
  rw [hpoll, ret_bind]
  refine .bcast (by rw [intBytes_length, intBytes_length]) ?_
  by_cases hzero : intOfBytes (intBytes haveQuery₀) = 0
  · rw [if_pos hzero, if_pos hzero]
    obtain rfl : cm₁ = c₀ := hidle (by rwa [intOfBytes_intBytes] at hzero)
    refine .root rfl ⟨()⟩ (fun _ c₁ hunlock₀ => ?_)
    obtain rfl : c₁ = cm₁ := hunlock₀
    refine .rank rfl ⟨()⟩ (fun _ c₂ hunlock => ?_)
    obtain rfl : c₂ = c := hunlock
    exact .ret ⟨rfl, hconn, hport⟩
  · rw [if_neg hzero, if_neg hzero]
    refine .bcast (by rw [intBytes_length, intBytes_length]) ?_
    -- the command in place of the old one does not matter to the port
    have hcomm : cm₁.intercomm = c₀.intercomm := by rw [show cm₁ = _ from hcommand]
    have hclientPort : cm₁.clientPort = c₀.clientPort := by rw [show cm₁ = _ from hcommand]
    have hnew : cm₁.intercomm = none → c₀.newQuery = true :=
      fun h => (hnone (hcomm.symm.trans h)).2 (by rwa [intOfBytes_intBytes] at hzero)
    have hnewQuery : cm₁.newQuery = c₀.newQuery := by rw [show cm₁ = _ from hcommand]
    have hport' : PortReady { cm₁ with
        clientCommand := intOfBytes (intBytes cm₁.clientCommand) } frame := by
      constructor
      · intro h _
        rw [hport.pending (hcomm.symm.trans h) (hnew h), hclientPort]
      · intro h hold
        exact absurd ((hnewQuery.trans (hnew h)).symm.trans hold) (by decide)
    have hconn' : c.intercomm.isSome = cm₁.intercomm.isSome := by rw [hcomm, hconn]
    have hrun := @runCommand_lockstep Conn simRank hrank lax frame state₀ state hstate
      { cm₁ with clientCommand := intOfBytes (intBytes cm₁.clientCommand) }
      { c with clientCommand := intOfBytes (intBytes cm₁.clientCommand) } rfl hconn'
      (fun h => hnewQuery.trans (hnew h)) hport' c₀ c
    refine hrun.bind (fun _ => ⟨rfl, fun _ => trivial⟩) (fun _ => ⟨rfl, fun _ => trivial⟩) ?_
    rintro ⟨branch₀, cm₂⟩ _ ⟨branch, cm₃⟩ _ ⟨rfl, rfl, halike⟩
    refine .root rfl ⟨()⟩ (fun _ c₁ hunlock₀ => ?_)
    obtain rfl : c₁ = cm₂ := hunlock₀
    refine .rank rfl ⟨()⟩ (fun _ c₂ hunlock => ?_)
    obtain rfl : c₂ = cm₃ := hunlock
    exact .ret halike

/-! ## The destructor -/

theorem sayGoodbye_quiet (simRank : ℕ) (cm : ConnectionManager Conn) :
    Quiet (sayGoodbye simRank cm) := by
  rw [sayGoodbye]
  cases cm.intercomm with
  | none => exact ⟨rfl, fun _ => trivial⟩
  | some comm =>
      by_cases hrank : simRank = 0
      · simp only [if_pos hrank]
        exact ⟨rfl, fun _ => ⟨rfl, fun _ => ⟨rfl, fun _ => trivial⟩⟩⟩
      · simp only [if_neg hrank]
        exact ⟨rfl, fun _ => ⟨rfl, fun _ => trivial⟩⟩

/-- The end of the destructor releases the mutex, with the fields as they stand. -/
theorem sayGoodbye_lockstep {lax : Prop} {good : StdString → Prop} {simRank : ℕ}
    (hrank : simRank ≠ 0) {cm₀ cm : ConnectionManager Conn}
    (hconn : cm.intercomm.isSome = cm₀.intercomm.isSome) (c₀ c : ConnectionManager Conn) :
    Lockstep lax good (fun _ c₀' _ c' => c₀' = cm₀ ∧ c' = cm) c₀ (sayGoodbye 0 cm₀) c
      (sayGoodbye simRank cm) := by
  obtain ⟨intercomm₀, clientPort₀, clientCommand₀, newQuery₀⟩ := cm₀
  obtain ⟨intercomm, clientPort, clientCommand, newQuery⟩ := cm
  cases intercomm₀ with
  | none =>
      obtain rfl : intercomm = none := by simpa using hconn
      refine .root rfl ⟨()⟩ (fun _ c₁ h₁ => ?_)
      refine .rank rfl ⟨()⟩ (fun _ c₂ h₂ => ?_)
      exact .ret ⟨h₁, h₂⟩
  | some comm₀ =>
      obtain ⟨comm, rfl⟩ := Option.isSome_iff_exists.1 hconn
      simp only [sayGoodbye, if_true, if_neg hrank, op, vis_bind, ret_bind]
      refine .root rfl ⟨()⟩ (fun _ c₁ _ => .root rfl ⟨()⟩ (fun _ c₂ h₂ => ?_))
      refine .rank rfl ⟨()⟩ (fun _ c₃ h₃ => ?_)
      refine .root rfl ⟨()⟩ (fun _ c₄ h₄ => .rank rfl ⟨()⟩ (fun _ c₅ h₅ => ?_))
      exact .ret ⟨h₄.trans h₂, h₅.trans h₃⟩

/-- What the destructor does when `connectClient` has ended. -/
theorem afterLastConnect_quiet (simRank : ℕ) (x : Except Fault Unit × ConnectionManager Conn) :
    Quiet (match x.1 with
      | .error e => (return .error e : SimProg Conn (Except Fault Unit))
      | .ok _ => do
          sayGoodbye simRank x.2
          return .ok ()) := by
  obtain ⟨result, cm⟩ := x
  cases result with
  | error e => trivial
  | ok u => exact (sayGoodbye_quiet simRank cm).bind (fun _ => trivial)

theorem destructor_lockstep {simRank : ℕ} (hrank : simRank ≠ 0) {lax : Prop}
    {frame : Option StdString}
    {cm₀ cm : ConnectionManager Conn} (hconn : cm.intercomm.isSome = cm₀.intercomm.isSome)
    (hport : PortReady cm₀ frame) :
    Lockstep lax (frame = some ·) (Alike frame) cm₀ (destructor 0) cm (destructor simRank) := by
  simp only [destructor, op_bind]
  refine .root_bind stopListener_local (fun _ _ => ?_)
  refine .rank_bind stopListener_local (fun _ _ => ?_)
  refine .root rfl ⟨cm₀⟩ (fun r₀ c₀ hlock₀ => ?_)
  obtain ⟨rfl, rfl⟩ := hlock₀
  refine .rank rfl ⟨cm⟩ (fun r c hlock => ?_)
  obtain ⟨rfl, rfl⟩ := hlock
  refine .root_bind (awaitCommand_root c₀) ?_
  rintro cm₁ ⟨hcommand, hnone⟩
  rw [awaitCommand_rank hrank, ret_bind]
  refine .bcast (by rw [intBytes_length, intBytes_length]) ?_
  rw [intOfBytes_intBytes]
  have hcomm : cm₁.intercomm = c₀.intercomm := by rw [hcommand]
  have hconn' : c.intercomm.isSome = cm₁.intercomm.isSome := by rw [hcomm, hconn]
  -- a command that a client has sent comes with the client
  have hport₁ : PortReady cm₁ frame := by
    constructor
    · intro h hpending
      have hsame := hnone (hcomm.symm.trans h)
      rw [hsame] at h hpending ⊢
      exact hport.pending h hpending
    · intro h hnew
      have hsame := hnone (hcomm.symm.trans h)
      rw [hsame] at h hnew ⊢
      exact hport.none_left h hnew
  by_cases hconnect : cm₁.clientCommand = Command.connect.toInt32
  · rw [if_pos hconnect, if_pos hconnect]
    have hgood : cm₁.intercomm = none → frame = some cm₁.clientPort := by
      intro h
      cases hnew : cm₁.newQuery with
      | true => exact hport₁.pending h hnew
      | false => exact absurd hconnect (hport₁.none_left h hnew)
    have hclient := @connectClient_lockstep Conn simRank hrank lax (frame = some ·) cm₁
      { c with clientCommand := cm₁.clientCommand } hconn' hgood c₀ c
    refine hclient.bind (afterLastConnect_quiet 0) (afterLastConnect_quiet simRank) ?_
    rintro ⟨result₀, cm₂⟩ c₁ ⟨result, cm₃⟩ c₂ ⟨rfl, rfl, hresult, hconn₂, hfailed, hok⟩
    obtain rfl : result = result₀ := hresult
    cases result with
    | error e => exact .ret ⟨rfl, hconn, hport⟩
    | ok u =>
        have hsome : cm₂.intercomm.isSome = true := hok rfl
        refine (sayGoodbye_lockstep hrank hconn₂ c₁ c₂).bind (fun _ => trivial)
          (fun _ => trivial) ?_
        rintro _ _ _ _ ⟨rfl, rfl⟩
        exact .ret ⟨rfl, hconn₂, .of_isSome frame hsome⟩
  · rw [if_neg hconnect, if_neg hconnect]
    have hbye := @sayGoodbye_lockstep Conn lax (frame = some ·) simRank hrank cm₁
      { c with clientCommand := cm₁.clientCommand } hconn' c₀ c
    refine hbye.bind (fun _ => trivial) (fun _ => trivial) ?_
    rintro _ _ _ _ ⟨rfl, rfl⟩
    exact .ret ⟨rfl, hconn', hport₁⟩

end ConnectionManager

/-! ## Runs -/

/-- How a call ends. -/
inductive CallEnd where
  | returned (branch : Branch)
  | destroyed (result : Except Fault Unit)
deriving DecidableEq

/-- The call with number `k` that every rank makes: `process()`, or the destructor when `finalize`
    is `some k`. -/
def nthCall (finalize : Option ℕ) (simRank k : ℕ) (state : Except Fault (List Bytes)) :
    SimProg Conn CallEnd :=
  if finalize = some k then do
    let result ← ConnectionManager.destructor simRank
    return .destroyed result
  else do
    let branch ← ConnectionManager.process simRank state
    return .returned branch

/-- There is a call with number `k`. -/
def Due (finalize : Option ℕ) (k : ℕ) : Prop :=
  ∀ n, finalize = some n → k ≤ n

/-- A finished call, with the fields it leaves. -/
structure Call (Conn : Type) where
  trace : SimTrace Conn
  ends : CallEnd
  after : ConnectionManager Conn

/-- The command a call went by: `process()` broadcasts it second, if at all, the destructor first.
    -/
def Call.command (c : Call Conn) : Option Int32 :=
  match c.ends with
  | .returned _ => (heard c.trace)[1]?.map intOfBytes
  | .destroyed _ => (heard c.trace)[0]?.map intOfBytes

/-- The finished calls of rank 0 from number `k` on, each with the port of the frame published last
    before it, where the fields are `cm` and that port is `frame` to begin with. Between two calls
    frames with any port and any command may be published; within a call the client may do
    anything. -/
inductive RootRun (finalize : Option ℕ) : ℕ → ConnectionManager Conn → Option StdString →
    List (Call Conn × Option StdString) → ConnectionManager Conn → Option StdString → Prop
  | nil (k : ℕ) (cm : ConnectionManager Conn) (frame : Option StdString) :
      RootRun finalize k cm frame [] cm frame
  | publish {k : ℕ} {cm cm' : ConnectionManager Conn} {frame frame' : Option StdString}
      {calls : List (Call Conn × Option StdString)} (portName : StdString) (cmd : Int32)
      (rest : RootRun finalize k (ConnectionManager.publish portName cmd cm) (some portName) calls
        cm' frame') :
      RootRun finalize k cm frame calls cm' frame'
  | call {k : ℕ} {cm cm' : ConnectionManager Conn} {frame frame' : Option StdString}
      {calls : List (Call Conn × Option StdString)} (due : Due finalize k)
      (state : Except Fault (List Bytes)) (c : Call Conn)
      (exec : Exec (nthCall finalize 0 k state) c.trace c.ends) (rooted : Rooted c.trace)
      (fields : Fields cm c.trace c.after)
      (rest : RootRun finalize (k + 1) c.after frame calls cm' frame') :
      RootRun finalize k cm frame ((c, frame) :: calls) cm' frame'

/-- The finished calls of another rank from number `k` on. -/
inductive RankRun (finalize : Option ℕ) (simRank : ℕ) :
    ℕ → ConnectionManager Conn → List (Call Conn) → ConnectionManager Conn → Prop
  | nil (k : ℕ) (cm : ConnectionManager Conn) : RankRun finalize simRank k cm [] cm
  | call {k : ℕ} {cm cm' : ConnectionManager Conn} {calls : List (Call Conn)}
      (due : Due finalize k) (state : Except Fault (List Bytes)) (c : Call Conn)
      (exec : Exec (nthCall finalize simRank k state) c.trace c.ends)
      (fields : Fields cm c.trace c.after)
      (rest : RankRun finalize simRank (k + 1) c.after calls cm') :
      RankRun finalize simRank k cm (c :: calls) cm'

/-- Where a rank stands after its finished calls: between two calls, or in call number `k`, of which
    it has done `ts` and is due to perform `due`. -/
inductive Underway (finalize : Option ℕ) (simRank k : ℕ) (cm : ConnectionManager Conn) :
    SimTrace Conn → Option (SimOp Conn) → Prop
  | between : Underway finalize simRank k cm [] none
  | within (hdue : Due finalize k) (state : Except Fault (List Bytes)) {ts : SimTrace Conn}
      {q : SimProg Conn CallEnd} {cm' : ConnectionManager Conn}
      (steps : Steps (nthCall finalize simRank k state) ts q) (fields : Fields cm ts cm') :
      Underway finalize simRank k cm ts q.due?

/-- All that a rank has done. -/
def history (calls : List (Call Conn)) (ts : SimTrace Conn) : SimTrace Conn :=
  calls.flatMap Call.trace ++ ts

/-- The collectives of each call, the unfinished one last. -/
def perCall (calls : List (Call Conn)) (ts : SimTrace Conn) (due : Option (SimOp Conn)) :
    List (List Collective) :=
  calls.map (fun c => called c.trace none) ++ [called ts due]

/-- The hosts connected to in call number `k` are `ports[k]`. -/
def Hosts (calls : List (List Collective)) (ports : List (Option StdString)) : Prop :=
  ∀ (k : ℕ) (cs : List Collective) (host : StdString),
    calls[k]? = some cs → .connect host ∈ cs → ports[k]? = some (some host)

/-- A rank's call agrees with the same call on rank 0. -/
structure Call.Agrees (c c₀ : Call Conn) : Prop where
  ends : c.ends = c₀.ends
  command : c.command = c₀.command
  collectives : called c.trace none = called c₀.trace none
  connected : c.after.intercomm.isSome = c₀.after.intercomm.isSome

section Runs

variable {finalize : Option ℕ} {simRank k : ℕ} {frame : Option StdString}

theorem nthCall_lockstep (hrank : simRank ≠ 0) {lax : Prop}
    {state₀ state : Except Fault (List Bytes)} (hstate : lax ∨ ∃ msgs, state = .ok msgs)
    {cm₀ cm : ConnectionManager Conn} (hconn : cm.intercomm.isSome = cm₀.intercomm.isSome)
    (hport : ConnectionManager.PortReady cm₀ frame) :
    Lockstep lax (frame = some ·) (ConnectionManager.Alike frame) cm₀
      (nthCall finalize 0 k state₀) cm (nthCall finalize simRank k state) := by
  rw [nthCall, nthCall]
  by_cases hfinal : finalize = some k
  · rw [if_pos hfinal, if_pos hfinal]
    refine (ConnectionManager.destructor_lockstep hrank hconn hport).bind (fun _ => trivial)
      (fun _ => trivial) ?_
    rintro result₀ _ result _ ⟨rfl, hconn', hport'⟩
    exact .ret ⟨rfl, hconn', hport'⟩
  · rw [if_neg hfinal, if_neg hfinal]
    refine (ConnectionManager.process_lockstep hrank hstate hconn hport).bind
      (fun _ => trivial) (fun _ => trivial) ?_
    rintro branch₀ _ branch _ ⟨rfl, hconn', hport'⟩
    exact .ret ⟨rfl, hconn', hport'⟩

/-- Rank 0 connects in a call only to the port last published, and its port is ready after it. -/
theorem nthCall_root {state : Except Fault (List Bytes)} {cm cm' : ConnectionManager Conn}
    (hport : ConnectionManager.PortReady cm frame) {ts : SimTrace Conn} {q : SimProg Conn CallEnd}
    (hsteps : Steps (nthCall finalize 0 k state) ts q) (hfields : Fields cm ts cm')
    (hrooted : Rooted ts) :
    (∀ host, .connect host ∈ called ts q.due? → frame = some host) ∧
      ∀ ends, q = .ret ends → ConnectionManager.PortReady cm' frame := by
  have hlock := @nthCall_lockstep Conn finalize 1 k frame (by decide) False state (.ok [])
    (.inr ⟨[], rfl⟩) cm cm rfl hport
  refine ⟨fun host hmem => hlock.good_root hsteps hfields hrooted host hmem, ?_⟩
  rintro ends rfl
  obtain ⟨_, _, halike⟩ := hlock.ends_root hsteps hfields hrooted
  exact halike.port

/-- A rank that has not been given anything in a call has not connected in it. -/
theorem nthCall_no_host (hrank : simRank ≠ 0) {state : Except Fault (List Bytes)}
    {cm cm' : ConnectionManager Conn} {ts : SimTrace Conn} {q : SimProg Conn CallEnd}
    (hsteps : Steps (nthCall finalize simRank k state) ts q) (hfields : Fields cm ts cm')
    (hheard : heard ts = []) (host : StdString) : .connect host ∉ called ts q.due? := by
  intro hmem
  -- beside a rank 0 that has not begun the call and has no frame
  have hport : ConnectionManager.PortReady
      { cm with clientCommand := -1, newQuery := false } none := .of_done none rfl rfl
  have hlock := @nthCall_lockstep Conn finalize simRank k none hrank True (.ok []) state
    (.inl trivial) { cm with clientCommand := -1, newQuery := false } cm rfl hport
  have hgood := hlock.good_rank (.refl _) hsteps rfl hfields (by simp [Rooted]) (fun _ => rfl)
    (by simp [hheard]) .nil_right host hmem
  exact absurd hgood (by simp)

/-- Wherever a rank stands, it is at some point of its next call. -/
theorem Underway.steps {cm : ConnectionManager Conn} {ts : SimTrace Conn}
    {due : Option (SimOp Conn)} (h : Underway finalize simRank k cm ts due) :
    ∃ state q cm', Steps (nthCall finalize simRank k state) ts q ∧ Fields cm ts cm' ∧
      called ts due = called ts q.due? ∧ sent ts due = sent ts q.due? := by
  cases h with
  | between =>
      refine ⟨.ok [], _, cm, .refl _, rfl, ?_⟩
      by_cases hfinal : finalize = some k
      · rw [nthCall, if_pos hfinal]
        exact ⟨rfl, rfl⟩
      · rw [nthCall, if_neg hfinal]
        exact ⟨rfl, rfl⟩
  | within hdue state hsteps hfields => exact ⟨state, _, _, hsteps, hfields, rfl, rfl⟩

theorem Underway.tail {α : Type} {x : α} {xs : List α} {cm : ConnectionManager Conn}
    {ts : SimTrace Conn} {due : Option (SimOp Conn)}
    (h : Underway finalize simRank (k + (x :: xs).length) cm ts due) :
    Underway finalize simRank (k + 1 + xs.length) cm ts due := by
  rwa [Nat.add_assoc, Nat.add_comm 1]

/-! ### The hosts, call by call -/

theorem Hosts.cons {cs : List Collective} {calls : List (List Collective)}
    {port : Option StdString} {ports : List (Option StdString)}
    (hfirst : ∀ host, .connect host ∈ cs → port = some host) (hrest : Hosts calls ports) :
    Hosts (cs :: calls) (port :: ports) := by
  intro k cs' host hcs hmem
  cases k with
  | zero =>
      obtain rfl : cs = cs' := Option.some.inj hcs
      exact congrArg some (hfirst host hmem)
  | succ k => exact hrest k cs' host hcs hmem

theorem Hosts.nil (ports : List (Option StdString)) : Hosts [] ports :=
  fun _ _ _ hcs _ => absurd hcs (by simp)

theorem Hosts.of_none {calls : List (List Collective)}
    (h : ∀ cs ∈ calls, ∀ host, .connect host ∉ cs) (ports : List (Option StdString)) :
    Hosts calls ports :=
  fun _ _ host hcs hmem => absurd hmem (h _ (List.mem_of_getElem? hcs) host)

theorem RootRun.hosts {cm cm' : ConnectionManager Conn} {frame' : Option StdString}
    {calls : List (Call Conn × Option StdString)}
    (h : RootRun finalize k cm frame calls cm' frame')
    (hport : ConnectionManager.PortReady cm frame) {ts : SimTrace Conn}
    {due : Option (SimOp Conn)} (hnow : Underway finalize 0 (k + calls.length) cm' ts due)
    (hrooted : Rooted ts) :
    Hosts (perCall (calls.map Prod.fst) ts due) (calls.map Prod.snd ++ [frame']) := by
  induction h with
  | nil k cm frame =>
      obtain ⟨state, q, cm', hsteps, hfields, hcalled, -⟩ := hnow.steps
      refine .cons (fun host hmem => ?_) (.nil [])
      rw [hcalled] at hmem
      exact (nthCall_root hport hsteps hfields hrooted).1 host hmem
  | publish portName cmd rest ih => exact ih (.publish portName cmd) hnow
  | @call k cm cm' frame frame' calls hdue state c exec rooted fields rest ih =>
      obtain ⟨hhost, hready⟩ := nthCall_root hport exec.steps fields rooted
      exact .cons hhost (ih (hready _ rfl) hnow.tail)

@[simp] theorem history_nil (ts : SimTrace Conn) : history [] ts = ts := rfl

theorem history_cons (c : Call Conn) (calls : List (Call Conn)) (ts : SimTrace Conn) :
    history (c :: calls) ts = c.trace ++ history calls ts := by
  rw [history, List.flatMap_cons, List.append_assoc, history]

/-- A rank that has not been given anything has not connected. -/
theorem RankRun.no_host (hrank : simRank ≠ 0) {cm cm' : ConnectionManager Conn}
    {calls : List (Call Conn)} (h : RankRun finalize simRank k cm calls cm') {ts : SimTrace Conn}
    {due : Option (SimOp Conn)} (hnow : Underway finalize simRank (k + calls.length) cm' ts due)
    (hheard : heard (history calls ts) = []) :
    ∀ cs ∈ perCall calls ts due, ∀ host, .connect host ∉ cs := by
  induction h with
  | nil k cm =>
      obtain ⟨state, q, cm', hsteps, hfields, hcalled, -⟩ := hnow.steps
      intro cs hcs host
      obtain rfl : cs = called ts due := List.mem_singleton.1 hcs
      rw [hcalled]
      exact nthCall_no_host hrank hsteps hfields hheard host
  | @call k cm cm' calls hdue state c exec fields rest ih =>
      rw [history_cons, heard_append, List.append_eq_nil_iff] at hheard
      intro cs hcs host
      rcases List.mem_cons.1 hcs with rfl | hcs
      · exact nthCall_no_host hrank exec.steps fields hheard.1 host
      · exact ih hnow.tail hheard.2 cs hcs host

/-! ### A rank beside rank 0 -/

/-- A rank with the finished calls `calls`, after which its fields are `cm` and it has done `ts` of
    the next call, agrees with rank 0, whose frame published last is `frame`. -/
structure AgreesWith (calls₀ : List (Call Conn × Option StdString)) (cm₀ : ConnectionManager Conn)
    (frame : Option StdString) (ts₀ : SimTrace Conn) (due₀ : Option (SimOp Conn))
    (calls : List (Call Conn)) (cm : ConnectionManager Conn) (ts : SimTrace Conn)
    (due : Option (SimOp Conn)) : Prop where
  agree : ∀ (k : ℕ) (c c₀ : Call Conn) (port : Option StdString),
    calls[k]? = some c → calls₀[k]? = some (c₀, port) → c.Agrees c₀
  connected : calls.length = calls₀.length → cm.intercomm.isSome = cm₀.intercomm.isSome
  collectives : Compatible (called (history calls ts) due)
    (called (history (calls₀.map Prod.fst) ts₀) due₀)
  hosts : Hosts (perCall calls ts due) (calls₀.map Prod.snd ++ [frame])

/-- One call of both, each as far as it has come. What comes after it is `later₀`, `conns₀`, `cs₀`
    on rank 0 and `later`, `conns`, `cs` on the other rank. -/
structure CallAgrees (frame : Option StdString) (cm₀ : ConnectionManager Conn) (ts₀ : SimTrace Conn)
    (q₀ : SimProg Conn CallEnd) (later₀ : List Bytes) (conns₀ : List (Except Fault Unit))
    (cm : ConnectionManager Conn) (ts : SimTrace Conn) (q : SimProg Conn CallEnd)
    (later : List Bytes) (conns : List (Except Fault Unit)) : Prop where
  hosts : ∀ host, .connect host ∈ called ts q.due? → frame = some host
  ahead : later₀ = [] → q.result? ≠ none → later = []
  collectives : ∀ cs₀ cs, (q₀.result? = none → cs₀ = []) → (q.result? = none → cs = []) →
    (q₀.result? ≠ none → q.result? ≠ none → Compatible cs cs₀) →
      Compatible (called ts q.due? ++ cs) (called ts₀ q₀.due? ++ cs₀)
  ends : ∀ e₀ e, q₀ = .ret e₀ → q = .ret e → ConnectionManager.Alike frame e₀ cm₀ e cm ∧
    called ts none = called ts₀ none ∧ heard ts = sent ts₀ none ∧ later <+: later₀ ∧
      Compatible conns conns₀

theorem nthCall_agrees (hrank : simRank ≠ 0) {state₀ state : Except Fault (List Bytes)}
    {cm₀ cm₀' cm cm' : ConnectionManager Conn} {ts₀ ts : SimTrace Conn}
    {q₀ q : SimProg Conn CallEnd} (later₀ later : List Bytes)
    (conns₀ conns : List (Except Fault Unit))
    (hconn : cm.intercomm.isSome = cm₀.intercomm.isSome)
    (hport : ConnectionManager.PortReady cm₀ frame)
    (hsteps₀ : Steps (nthCall finalize 0 k state₀) ts₀ q₀) (hfields₀ : Fields cm₀ ts₀ cm₀')
    (hrooted : Rooted ts₀) (hsteps : Steps (nthCall finalize simRank k state) ts q)
    (hfields : Fields cm ts cm') (hlast : q₀.result? = none → later₀ = [])
    (hbcast : heard ts ++ later <+: sent ts₀ q₀.due? ++ later₀)
    (hconnect : Compatible (connects ts ++ conns) (connects ts₀ ++ conns₀)) :
    CallAgrees frame cm₀' ts₀ q₀ later₀ conns₀ cm' ts q later conns := by
  have hlock := @nthCall_lockstep Conn finalize simRank k frame hrank True state₀ state
    (.inl trivial) cm₀ cm hconn hport
  have hhosts := hlock.good_rank hsteps₀ hsteps hfields₀ hfields hrooted hlast
    ((List.prefix_append _ _).trans hbcast) hconnect.of_append
  rcases hlock.compare hsteps₀ hsteps hfields₀ hfields hrooted hlast hbcast hconnect with
    ⟨e₀, e, ⟨rfl, rfl, halike⟩, hcalled, hheard, hlater, hconns⟩ | ⟨hopen, hahead, hcompat⟩
  · refine ⟨hhosts, fun hnone _ => List.prefix_nil.1 (hnone ▸ hlater), ?_, ?_⟩
    · intro cs₀ cs _ _ hcs
      rw [due?, due?, hcalled, Compatible.append_iff]
      exact hcs (by simp [result?]) (by simp [result?])
    · rintro _ _ ⟨⟩ ⟨⟩
      exact ⟨halike, hcalled, hheard, hlater, hconns⟩
  · refine ⟨hhosts, fun _ hended => hahead hended, ?_, ?_⟩
    · exact fun cs₀ cs hcs₀ hcs _ => hcompat cs₀ cs hcs₀ hcs
    · rintro e₀ e rfl rfl
      exact absurd hopen (by simp [result?])

theorem runs_agree (hrank : simRank ≠ 0) {cm₀ cm₀' cm cm' : ConnectionManager Conn}
    {frame' : Option StdString} {calls₀ : List (Call Conn × Option StdString)}
    {calls : List (Call Conn)} {ts₀ ts : SimTrace Conn} {due₀ due : Option (SimOp Conn)}
    (hroot : RootRun finalize k cm₀ frame calls₀ cm₀' frame')
    (hnow₀ : Underway finalize 0 (k + calls₀.length) cm₀' ts₀ due₀)
    (hrooted : Rooted ts₀)
    (hrun : RankRun finalize simRank k cm calls cm')
    (hnow : Underway finalize simRank (k + calls.length) cm' ts due)
    (hconn : cm.intercomm.isSome = cm₀.intercomm.isSome)
    (hport : ConnectionManager.PortReady cm₀ frame)
    (hbcast : heard (history calls ts) <+: sent (history (calls₀.map Prod.fst) ts₀) due₀)
    (hconnect : Compatible (connects (history calls ts))
      (connects (history (calls₀.map Prod.fst) ts₀))) :
    AgreesWith calls₀ cm₀' frame' ts₀ due₀ calls cm' ts due := by
  induction hroot generalizing cm calls with
  | publish portName cmd rest ih =>
      exact ih hnow₀ hrun hnow hconn (.publish portName cmd) hbcast hconnect
  | nil k cm₀ frame =>
      obtain ⟨state₀, q₀, cm₁, hsteps₀, hfields₀, hcalled₀, hsent₀⟩ := hnow₀.steps
      simp only [List.map_nil, history_nil, hsent₀] at hbcast hconnect
      -- rank 0 has finished no call: the other rank is in the same one, or has gone on without it
      cases hrun with
      | nil =>
          obtain ⟨state, q, cm₂, hsteps, hfields, hcalled, -⟩ := hnow.steps
          rw [history_nil] at hbcast hconnect
          have hcall := nthCall_agrees hrank [] [] [] [] hconn hport hsteps₀ hfields₀ hrooted hsteps
            hfields (fun _ => rfl) (by simpa using hbcast) (by simpa using hconnect)
          refine ⟨fun _ _ _ _ hnone => absurd hnone (by simp), fun _ => hconn, ?_, ?_⟩
          · have h := hcall.collectives [] [] (fun _ => rfl) (fun _ => rfl) (fun _ _ => .nil_left)
            simpa [hcalled, hcalled₀] using h
          · rw [perCall, hcalled]
            exact .cons hcall.hosts (.nil [])
      | @call _ _ _ calls hdue state c exec fields rest =>
          rw [history_cons, heard_append] at hbcast
          rw [history_cons, connects_append] at hconnect
          have hcall := nthCall_agrees hrank [] _ [] _ hconn hport hsteps₀ hfields₀ hrooted
            exec.steps fields (fun _ => rfl) (by simpa using hbcast) (by simpa using hconnect)
          refine ⟨fun _ _ _ _ _ hnone => absurd hnone (by simp), fun hlen => absurd hlen (by simp),
            ?_, ?_⟩
          · have h := hcall.collectives [] (called (history calls ts) due) (fun _ => rfl)
              (fun hnone => absurd hnone (by simp [result?])) (fun _ _ => .nil_right)
            simpa [hcalled₀, history_cons, called_append, due?] using h
          · -- it has been given nothing in the calls that it has gone on to
            have hnothing := hcall.ahead rfl (by simp [result?])
            exact .cons hcall.hosts (.of_none (rest.no_host hrank hnow.tail hnothing) [])
  | @call k cm₀ cm₀' frame frame' calls₀ hdue₀ state₀ c₀ exec₀ rooted₀ fields₀ rest₀ ih =>
      rw [List.map_cons, history_cons, sent_append] at hbcast
      rw [List.map_cons, history_cons, connects_append] at hconnect
      -- rank 0 has finished the call: the other rank is within it, or has finished it too
      cases hrun with
      | nil =>
          obtain ⟨state, q, cm', hsteps, hfields, hcalled, -⟩ := hnow.steps
          have hcall := nthCall_agrees hrank _ [] _ [] hconn hport exec₀.steps fields₀ rooted₀
            hsteps hfields (fun hnone => absurd hnone (by simp [result?]))
            (by simpa [due?] using hbcast) (by simpa using hconnect)
          refine ⟨fun _ _ _ _ hnone => absurd hnone (by simp), fun hlen => absurd hlen (by simp),
            ?_, ?_⟩
          · have h := hcall.collectives (called (history (calls₀.map Prod.fst) ts₀) due₀) []
              (fun hnone => absurd hnone (by simp [result?])) (fun _ => rfl) (fun _ _ => .nil_left)
            simpa [hcalled, history_cons, called_append, due?] using h
          · rw [perCall, hcalled]
            exact .cons hcall.hosts (.nil _)
      | @call _ _ _ calls hdue state c exec fields rest =>
          rw [history_cons, heard_append] at hbcast
          rw [history_cons, connects_append] at hconnect
          have hcall := nthCall_agrees hrank _ _ _ _ hconn hport exec₀.steps fields₀ rooted₀
            exec.steps fields (fun hnone => absurd hnone (by simp [result?])) hbcast hconnect
          obtain ⟨halike, hcalled, hheard, hlater, hconns⟩ := hcall.ends _ _ rfl rfl
          have hrest := ih hnow₀.tail rest hnow.tail halike.connected halike.port hlater hconns
          refine ⟨?_, fun hlen => hrest.connected (by simpa using hlen), ?_,
            .cons hcall.hosts hrest.hosts⟩
          · intro n c₁ c₂ port hc₁ hc₂
            cases n with
            | zero =>
                obtain rfl : c = c₁ := Option.some.inj hc₁
                obtain ⟨rfl, rfl⟩ := Prod.mk.inj (Option.some.inj hc₂)
                refine ⟨halike.ends, ?_, hcalled, halike.connected⟩
                rw [Call.command, Call.command, halike.ends, hheard, rooted₀.heard]
            | succ n => exact hrest.agree n c₁ c₂ port hc₁ hc₂
          · rw [List.map_cons, history_cons, history_cons, called_append, called_append, hcalled,
              Compatible.append_iff]
            exact hrest.collectives

/-- **Agreement of the simulation ranks.** Let all ranks make the same calls, some number of
    `process()` and then perhaps the destructor, and let each be as far as it may, within a call or
    between two. Suppose that a broadcast gives every rank what rank 0 sends, in order, and that the
    ranks see the same outcomes of `InterComm::connect`. Then every other rank ends each call as
    rank 0 ends that call, on the same command, with the same collectives, and connected if rank 0
    is; the collectives of one start those of the other in unfinished calls too; and every rank
    connects in a call only to the port rank 0 has published last before it. -/
theorem simulation_ranks_agree (M : ℕ) (finalize : Option ℕ)
    {calls₀ : List (Call Conn × Option StdString)} {cm₀ : ConnectionManager Conn}
    {frame : Option StdString} {ts₀ : SimTrace Conn} {due₀ : Option (SimOp Conn)}
    (hroot : RootRun finalize 0 ConnectionManager.init none calls₀ cm₀ frame)
    (hnow₀ : Underway finalize 0 calls₀.length cm₀ ts₀ due₀) (hrooted : Rooted ts₀)
    (calls : ℕ → List (Call Conn)) (cm : ℕ → ConnectionManager Conn) (ts : ℕ → SimTrace Conn)
    (due : ℕ → Option (SimOp Conn))
    (hruns : ∀ r, 0 < r → r < M → RankRun finalize r 0 ConnectionManager.init (calls r) (cm r))
    (hnow : ∀ r, 0 < r → r < M → Underway finalize r (calls r).length (cm r) (ts r) (due r))
    (hbcast : ∀ r, 0 < r → r < M →
      heard (history (calls r) (ts r)) <+: sent (history (calls₀.map Prod.fst) ts₀) due₀)
    (hconnect : ∀ r, 0 < r → r < M → Compatible (connects (history (calls r) (ts r)))
      (connects (history (calls₀.map Prod.fst) ts₀))) :
    Hosts (perCall (calls₀.map Prod.fst) ts₀ due₀) (calls₀.map Prod.snd ++ [frame]) ∧
      ∀ r, 0 < r → r < M →
        AgreesWith calls₀ cm₀ frame ts₀ due₀ (calls r) (cm r) (ts r) (due r) := by
  have hnow₀' : Underway finalize 0 (0 + calls₀.length) cm₀ ts₀ due₀ := by rwa [Nat.zero_add]
  refine ⟨hroot.hosts ConnectionManager.PortReady.init hnow₀' hrooted, fun r hpos hr => ?_⟩
  have hnow' : Underway finalize r (0 + (calls r).length) (cm r) (ts r) (due r) := by
    rw [Nat.zero_add]
    exact hnow r hpos hr
  exact runs_agree (Nat.pos_iff_ne_zero.1 hpos) hroot hnow₀' hrooted (hruns r hpos hr) hnow' rfl
    ConnectionManager.PortReady.init (hbcast r hpos hr) (hconnect r hpos hr)

end Runs

/-! ## A session of two ranks -/

/-- The port `p`. -/
def portP : StdString :=
  ⟨[112], by decide⟩

/-- The manager of a rank connected to `p`. -/
def connectedToP : ConnectionManager Unit :=
  ⟨some (), portP, -1, false⟩

/-- Rank 0 connects to the client whose frame it has been given. -/
def rootConnects : Call Unit where
  trace := [⟨.lock, ConnectionManager.publish portP Command.connect.toInt32 .init⟩,
    ⟨.bcast (intBytes 1), intBytes 1⟩,
    ⟨.bcast (intBytes Command.connect.toInt32), intBytes Command.connect.toInt32⟩,
    ⟨.bcast (leBytes 8 (stringBytes portP).length), leBytes 8 (stringBytes portP).length⟩,
    ⟨.bcast (stringBytes portP), stringBytes portP⟩,
    ⟨.connect portP, .ok ()⟩, ⟨.send () .quit (intBytes 0) 0, ()⟩, ⟨.unlock connectedToP, ()⟩]
  ends := .returned .connect
  after := connectedToP

/-- Rank 1 follows. -/
def rankConnects : Call Unit where
  trace := [⟨.lock, .init⟩, ⟨.bcast (intBytes 0), intBytes 1⟩,
    ⟨.bcast (intBytes Command.invalid.toInt32), intBytes Command.connect.toInt32⟩,
    ⟨.bcast (leBytes 8 0), leBytes 8 (stringBytes portP).length⟩,
    ⟨.bcast (zeros (stringBytes portP).length), stringBytes portP⟩,
    ⟨.connect portP, .ok ()⟩, ⟨.unlock connectedToP, ()⟩]
  ends := .returned .connect
  after := connectedToP

/-- In its second call rank 0 finds no command and is about to say so. -/
def rootProbes : SimTrace Unit :=
  [⟨.lock, connectedToP⟩, ⟨.probe () 0, false⟩]

/-- Rank 1 has been told. -/
def rankHears : SimTrace Unit :=
  [⟨.lock, connectedToP⟩, ⟨.bcast (intBytes 0), intBytes 0⟩]

theorem rootConnects_run :
    RootRun none 0 .init none [(rootConnects, some portP)] connectedToP (some portP) := by
  refine .publish portP Command.connect.toInt32
    (.call (fun _ h => absurd h (by simp)) (.ok []) rootConnects ?_ ?_ ?_ (.nil _ _ _))
  · simp [rootConnects, nthCall, ConnectionManager.process, ConnectionManager.poll,
      ConnectionManager.publish, ConnectionManager.init, ConnectionManager.runCommand,
      ConnectionManager.connectClient, ConnectionManager.bcastPort, ConnectionManager.sendQuit,
      ConnectionManager.serialize_port, ConnectionManager.done, connectedToP]
  · intro buf data hmem
    simp only [rootConnects, List.mem_cons, Sigma.mk.injEq, reduceCtorEq, false_and, or_false,
      false_or, SimOp.bcast.injEq, List.not_mem_nil] at hmem
    rcases hmem with ⟨rfl, h⟩ | ⟨rfl, h⟩ | ⟨rfl, h⟩ | ⟨rfl, h⟩ <;> exact eq_of_heq h
  · simp [rootConnects, Fields, SimOp.step]

theorem rankConnects_run : RankRun none 1 0 .init [rankConnects] connectedToP := by
  refine .call (fun _ h => absurd h (by simp)) (.ok []) rankConnects ?_ ?_ (.nil _ _)
  · have hsize : leValue (leBytes 8 (8 + portP.bytes.length)) = 8 + portP.bytes.length :=
      leValue_leBytes_of_lt _ _ (by decide)
    simp [rankConnects, nthCall, ConnectionManager.process, ConnectionManager.poll,
      ConnectionManager.init, ConnectionManager.runCommand, ConnectionManager.connectClient,
      ConnectionManager.bcastPort, ConnectionManager.decode_port, ConnectionManager.done,
      connectedToP, hsize]
  · simp [rankConnects, Fields, SimOp.step]

theorem rootProbes_underway : Underway none 0 1 connectedToP rootProbes
    (some (.bcast (intBytes 0))) := by
  have hsteps : ∃ next, Steps (nthCall none 0 1 (.ok [])) rootProbes
      (vis (.bcast (intBytes 0)) next) := ⟨_, .vis _ (.vis _ (.refl _))⟩
  have hfields : Fields connectedToP rootProbes connectedToP := by
    simp [rootProbes, Fields, SimOp.step]
  obtain ⟨next, hsteps⟩ := hsteps
  exact .within (fun _ h => absurd h (by simp)) (.ok []) hsteps hfields

theorem rankHears_underway : Underway none 1 1 connectedToP rankHears
    (some (.unlock connectedToP)) := by
  have hsteps : ∃ next, Steps (nthCall none 1 1 (.ok [])) rankHears
      (vis (.unlock connectedToP) next) := ⟨_, .vis _ (.vis _ (.refl _))⟩
  have hfields : Fields connectedToP rankHears connectedToP := by
    simp [rankHears, Fields, SimOp.step]
  obtain ⟨next, hsteps⟩ := hsteps
  exact .within (fun _ h => absurd h (by simp)) (.ok []) hsteps hfields

theorem two_ranks_agree : AgreesWith [(rootConnects, some portP)] connectedToP (some portP)
    rootProbes (some (.bcast (intBytes 0))) [rankConnects] connectedToP rankHears
    (some (.unlock connectedToP)) :=
  (simulation_ranks_agree 2 none rootConnects_run rootProbes_underway (by simp [Rooted, rootProbes])
    (fun _ => [rankConnects]) (fun _ => connectedToP) (fun _ => rankHears)
    (fun _ => some (.unlock connectedToP))
    (fun r hpos hr => by
      obtain rfl : r = 1 := by omega
      exact rankConnects_run)
    (fun r hpos hr => by
      obtain rfl : r = 1 := by omega
      exact rankHears_underway)
    (fun _ _ _ => List.prefix_refl _) (fun _ _ _ => .inl (List.prefix_refl _))).2 1 (by decide)
    (by decide)

end LibIS
