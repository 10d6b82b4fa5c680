import LibIS.QueryRound.Invariant

set_option autoImplicit false

/-! # Rounds of queries: what a rank knows

`SimAt` and `ClientAt` say how far a rank is in its call, by its ends of the channels. No other rank
can change that (`SimAt.stable`, `ClientAt.stable`). With the invariant they make up the proof
outline of the system (`proof`). -/

open ByteCodec Prog ThreadSystem Proof

namespace LibIS

namespace QueryRound

/-! ## A simulation rank in a call -/

section Sim

variable (M N : ℕ) (snaps : Snapshots)

/-- What simulation rank `s` knows in its call after `calls`, when it has made or got the broadcasts
    `cast`, has sent `out` and has taken `took` messages in it. -/
structure SimAt (s : ℕ) (calls : List Branch) (cast : List Bytes) (out : List Message) (took : ℕ)
    (w : World) : Prop where
  polled : Polled calls
  simCast : castsOf calls ++ cast <+: w.simCast
  rootCast : s = 0 → w.simCast = castsOf calls ++ cast
  simHeard : s ≠ 0 → w.simHeard s = (castsOf calls ++ cast).length
  down : ∀ c, InBlock M N c s → (w.down s c).sent = replies snaps s (queryCalls calls) ++ out
  up : ∀ c, InBlock M N c s → (w.up c s).taken = perRound s * (queryCalls calls).length + took
  serving : 0 < took → w.serving s = (queryCalls calls).length
  intercomm : (w.manager s).intercomm = some ()
  newQuery : (w.manager s).newQuery = false

variable {M N snaps} {s : ℕ} {calls : List Branch} {cast : List Bytes} {out : List Message}
  {took : ℕ}

theorem SimAt.stable {w w' : World} (h : SimAt M N snaps s calls cast out took w)
    (hrely : SimRely s w w') : SimAt M N snaps s calls cast out took w' where
  polled := h.polled
  simCast := h.simCast.trans hrely.simCast
  rootCast hs := (hrely.rootCast hs).trans (h.rootCast hs)
  simHeard hs := hrely.simHeard.trans (h.simHeard hs)
  down c hblock := (hrely.downSent c).trans (h.down c hblock)
  up c hblock := (hrely.upTaken c).trans (h.up c hblock)
  serving hpos := hrely.serving.trans (h.serving hpos)
  intercomm := (congrArg ConnectionManager.intercomm hrely.manager).trans h.intercomm
  newQuery := (congrArg ConnectionManager.newQuery hrely.manager).trans h.newQuery

theorem SimAt.idle {w : World} (h : SimAt M N snaps s calls [intBytes 0] [] 0 w) :
    SimAt M N snaps s (calls ++ [.idle]) [] [] 0 w := by
  have hcasts : castsOf (calls ++ [.idle]) ++ [] = castsOf calls ++ [intBytes 0] := by
    rw [castsOf_append, List.append_nil]
    rfl
  have hcalls : queryCalls (calls ++ [.idle]) = queryCalls calls := by
    simp [queryCalls_concat]
  exact {
    polled := h.polled.concat (.inl rfl)
    simCast := hcasts ▸ h.simCast
    rootCast := hcasts ▸ h.rootCast
    simHeard := hcasts ▸ h.simHeard
    down := hcalls ▸ h.down
    up := hcalls ▸ h.up
    serving := fun hpos => absurd hpos (lt_irrefl 0)
    intercomm := h.intercomm
    newQuery := h.newQuery }

theorem SimAt.query {w : World}
    (h : SimAt M N snaps s calls [intBytes 1, intBytes Command.query.toInt32]
      (reply snaps s calls.length (queryCalls calls).length) (perRound s) w) :
    SimAt M N snaps s (calls ++ [.query]) [] [] 0 w := by
  have hcasts : castsOf (calls ++ [.query]) ++ [] =
      castsOf calls ++ [intBytes 1, intBytes Command.query.toInt32] := by
    rw [castsOf_append, List.append_nil]
    rfl
  have hcalls : queryCalls (calls ++ [.query]) = queryCalls calls ++ [calls.length] := by
    simp [queryCalls_concat]
  exact {
    polled := h.polled.concat (.inr rfl)
    simCast := hcasts ▸ h.simCast
    rootCast := hcasts ▸ h.rootCast
    simHeard := hcasts ▸ h.simHeard
    down := fun c hblock => by
      rw [hcalls, replies_concat, List.append_nil]
      exact h.down c hblock
    up := fun c hblock => by
      rw [hcalls, List.length_append, List.length_singleton, Nat.mul_succ, Nat.add_zero]
      exact h.up c hblock
    serving := fun hpos => absurd hpos (lt_irrefl 0)
    intercomm := h.intercomm
    newQuery := h.newQuery }

/-- The calls that rank 0 has announced when this rank has got a set flag. -/
theorem SimAt.rounds_grow {w : World}
    (h : SimAt M N snaps s calls [intBytes 1, intBytes Command.query.toInt32] out took w) :
    queryCalls calls ++ [calls.length] <+: w.rounds := by
  have hcalls : queryCalls (calls ++ [.query]) = queryCalls calls ++ [calls.length] := by
    simp [queryCalls_concat]
  have hcasts : castsOf (calls ++ [.query]) =
      castsOf calls ++ [intBytes 1, intBytes Command.query.toInt32] := by
    rw [castsOf_append]
    rfl
  rw [← hcalls]
  refine queryCalls_grow (le_castCalls (h.polled.concat (.inr rfl)) ?_)
  rw [hcasts]
  exact h.simCast

end Sim

/-! ## A client rank in a round -/

section Client

variable (M N : ℕ) (snaps : Snapshots)

/-- Client rank `c` has sent simulation rank `s` its messages of the rounds before `R` and `sent`
    more, and has taken the replies of these rounds and `got` messages more. -/
structure ChannelAt (c s R sent got : ℕ) (w : World) : Prop where
  rounds : R ≤ w.rounds.length
  upSent : (w.up c s).sent.length = perRound s * R + sent
  downTaken : (w.down s c).taken = (replies snaps s (w.rounds.take R)).length + got

/-- How far a client rank is with a simulation rank in a round. -/
inductive Progress where
  /-- it has sent `sent` messages and taken `got` -/
  | asking (sent got : ℕ)
  /-- it has taken `got` messages of the state of call `k` -/
  | reading (k got : ℕ)
  /-- it has all of the state -/
  | done

/-- What client rank `c` knows of the channel to `s` in round `R`. -/
def Knows (c R s : ℕ) : Progress → World → Prop
  | .asking sent got, w => ChannelAt snaps c s R sent got w
  | .reading k got, w =>
      w.rounds[R]? = some k ∧ perRound s * (R + 1) ≤ (w.up c s).taken ∧
        ChannelAt snaps c s R (perRound s) ((quits s R).length + got) w
  | .done, w => perRound s * (R + 1) ≤ (w.up c s).taken ∧ ChannelAt snaps c s (R + 1) 0 0 w

/-- What client rank `c` knows in round `R`, of which it has entered `barriers` barriers. -/
structure ClientAt (c R barriers : ℕ) (progress : ℕ → Progress) (w : World) : Prop where
  arrived : w.arrived c = 2 * R + barriers
  rounds : R ≤ w.rounds.length
  others : ∀ c', c' < N → 2 * R ≤ w.arrived c'
  knows : ∀ s, InBlock M N c s → Knows snaps c R s (progress s) w

/-- The regions of a client rank's simulation ranks in call `k`. -/
def roundRegions (c k : ℕ) : List SimState :=
  ((List.range (numRegions M N c)).map (firstRegion M N c + ·)).map (fun s => (snaps s k).region)

/-- The regions of the rounds so far. -/
structure Results (c : ℕ) (results : List (List SimState)) (w : World) : Prop where
  rounds : results.length ≤ w.rounds.length
  regions : results = (w.rounds.take results.length).map (roundRegions M N snaps c)

variable {M N snaps} {c R : ℕ} {w w' : World}

theorem ClientRely.rounds (hrely : ClientRely c w w') : w.rounds <+: w'.rounds :=
  queryCalls_grow (castCalls_grow hrely.simCast)

theorem ChannelAt.transfer {s sent got : ℕ} (h : ChannelAt snaps c s R sent got w)
    (hrounds : w.rounds <+: w'.rounds) (hup : (w'.up c s).sent = (w.up c s).sent)
    (hdown : (w'.down s c).taken = (w.down s c).taken) : ChannelAt snaps c s R sent got w' where
  rounds := h.rounds.trans hrounds.length_le
  upSent := (congrArg List.length hup).trans h.upSent
  downTaken := by
    rw [hdown, h.downTaken, hrounds.take_eq h.rounds]

/-- Nobody but the client rank itself can change what it knows of a channel. -/
theorem Knows.transfer {s : ℕ} {p : Progress} (h : Knows snaps c R s p w)
    (hrounds : w.rounds <+: w'.rounds) (hup : (w'.up c s).sent = (w.up c s).sent)
    (hdown : (w'.down s c).taken = (w.down s c).taken)
    (hsim : (w.up c s).taken ≤ (w'.up c s).taken) : Knows snaps c R s p w' := by
  cases p with
  | asking sent got => exact ChannelAt.transfer h hrounds hup hdown
  | reading k got =>
      obtain ⟨hcall, htaken, hat⟩ := h
      exact ⟨hrounds.getElem?_eq_some hcall, htaken.trans hsim, hat.transfer hrounds hup hdown⟩
  | done =>
      obtain ⟨htaken, hat⟩ := h
      exact ⟨htaken.trans hsim, hat.transfer hrounds hup hdown⟩

theorem ClientAt.stable {barriers : ℕ} {progress : ℕ → Progress}
    (h : ClientAt M N snaps c R barriers progress w) (hrely : ClientRely c w w') :
    ClientAt M N snaps c R barriers progress w' where
  arrived := hrely.arrived.trans h.arrived
  rounds := h.rounds.trans hrely.rounds.length_le
  others c' hc' := (h.others c' hc').trans (hrely.allArrived c')
  knows s hblock := (h.knows s hblock).transfer hrely.rounds (hrely.upSent s) (hrely.downTaken s)
    (hrely.upTaken s)

theorem Results.stable {results : List (List SimState)} (h : Results M N snaps c results w)
    (hrely : ClientRely c w w') : Results M N snaps c results w' where
  rounds := h.rounds.trans hrely.rounds.length_le
  regions := by
    rw [hrely.rounds.take_eq h.rounds]
    exact h.regions

end Client

/-! ## The proof outline -/

section Outline

variable (M N : ℕ) (snaps : Snapshots)

/-- What must hold when an operation of simulation rank `s` is due: the next message is of the kind
    and size the rank expects. What belongs to connecting and finalizing is never due. -/
def readySim (s : ℕ) : SimOp Unit → World → Prop
  | .recv _ kind size rank, w =>
      ∀ m, (w.up rank s).next? = some m → m.kind = kind ∧ m.data.length = size
  | .lock, _ | .unlock _, _ | .bcast _, _ | .probe _ _, _ | .probeAll _, _ | .send _ _ _ _, _ => True
  | _, _ => False

/-- What must hold when an operation of client rank `c` is due. -/
def readyClient (c : ℕ) : ClientOp Unit → World → Prop
  | .recv _ kind size rank, w =>
      ∀ m, (w.down rank c).next? = some m → m.kind = kind ∧ m.data.length = size
  | .remoteSize _, _ | .arrive, _ | .leave, _ | .bcast _, _ | .send _ _ _ _, _ => True
  | _, _ => False

/-- What must hold when an operation of a rank is due. -/
def ready : (i : Party M N) → (system M N snaps).Op i → World → Prop
  | .sim s => readySim s
  | .client c => readyClient c

/-- What a rank knows between two calls. -/
def between : (i : Party M N) → (system M N snaps).Label i → World → Prop
  | .sim s => fun calls => SimAt M N snaps s calls [] [] 0
  | .client c => fun l w =>
      (l.this.intercomm = some () ∧ l.this.simQuit = 0) ∧ Results M N snaps c l.rounds w ∧
        ClientAt M N snaps c l.rounds.length 0 (fun _ => .asking 0 0) w

/-- The proof outline. -/
@[reducible] def outline : (system M N snaps).Proof where
  inv := Inv M N snaps
  rely := Rely M N
  ready := ready M N snaps
  post := between M N snaps
  rely_refl := Rely.refl
  rely_trans
    | .sim _ => fun _ _ _ => SimRely.trans
    | .client _ => fun _ _ _ => ClientRely.trans

variable {M N snaps}

theorem sim_op {s : Fin M} {o : SimOp Unit} {pre : World → Prop} {Q : o.Resp → World → Prop}
    (hstable : ∀ w w', pre w → SimRely s w w' → pre w')
    (hready : ∀ w, Inv M N snaps w → pre w → readySim s o w)
    (hstep : ∀ w r w', Inv M N snaps w → pre w → performSim N s o w r w' →
      Inv M N snaps w' ∧ Q r w') :
    (outline M N snaps).Triple (.sim s) pre (Prog.op o) Q := by
  refine Triple.op (fun w w' hpre hrely _ => hstable w w' hpre hrely) hready ?_
  intro w r w' hinv hpre hperform
  obtain ⟨hinv', hQ⟩ := hstep w r w' hinv hpre hperform
  exact ⟨⟨hinv', fun j hj => performSim_rely M N hperform j hj⟩, hQ⟩

theorem client_op {c : Fin N} {o : ClientOp Unit} {pre : World → Prop}
    {Q : o.Resp → World → Prop} (hstable : ∀ w w', pre w → ClientRely c w w' → pre w')
    (hready : ∀ w, Inv M N snaps w → pre w → readyClient c o w)
    (hstep : ∀ w r w', Inv M N snaps w → pre w → performClient M N c o w r w' →
      Inv M N snaps w' ∧ Q r w') :
    (outline M N snaps).Triple (.client c) pre (Prog.op o) Q := by
  refine Triple.op (fun w w' hpre hrely _ => hstable w w' hpre hrely) hready ?_
  intro w r w' hinv hpre hperform
  obtain ⟨hinv', hQ⟩ := hstep w r w' hinv hpre hperform
  exact ⟨⟨hinv', fun j hj => performClient_rely M N hperform j hj⟩, hQ⟩

end Outline

end QueryRound

end LibIS
