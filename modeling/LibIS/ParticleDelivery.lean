import LibIS.RegionTransfer

set_option autoImplicit false

/-! # Whether particles arrive (`SimStateHeader::hasParticles`)

Both sides of a transfer branch on `header.hasParticles`, which is `numParticles` narrowed to 32
bits, ghosts not counted. A rank whose flag is zero sends no particles and its client expects none,
so nothing fails; the particles are just not there. `particles_delivered_iff` gives the exact
condition under which they are. -/

open ByteCodec Receive

namespace LibIS

/-- The sends of the snapshot, delivered byte for byte, leave the client with `region`: on a message
    channel and on a byte stream. -/
def Snapshot.Delivers {simRank : Int32} (q : Snapshot simRank) (region : SimState) : Prop :=
  ∃ msgs, q.sends = .ok msgs ∧
    (run recvMessage recvRegion msgs).2.2 = some (.ok region) ∧
    (run recvBytes recvRegion msgs.flatten).2.2 = some (.ok region)

/-- A delivered snapshot yields its region and no other. -/
theorem Snapshot.delivers_iff {simRank : Int32} (q : Snapshot simRank) (region : SimState) :
    q.Delivers region ↔ region = q.region := by
  obtain ⟨msgs, hsends, -, hreads⟩ := q.reads
  have hmsgs := hreads.run_messages []
  have hbytes := hreads.run_stream []
  rw [List.append_nil] at hmsgs hbytes
  constructor
  · rintro ⟨msgs', hsends', hrun, -⟩
    rw [hsends, Except.ok.injEq] at hsends'
    subst hsends'
    rw [hmsgs] at hrun
    exact (Except.ok.inj (Option.some.inj hrun)).symm
  · rintro rfl
    exact ⟨msgs, hsends, by rw [hmsgs], by rw [hbytes]⟩

/-- The flag of the header is the low half of the particle count. -/
theorem hasParticles_eq_zero_iff (state : SimState) :
    (SimStateHeader.ofState state).hasParticles = 0 ↔
      state.particles.numParticles.toNat % 2 ^ 32 = 0 := by
  rw [← UInt32.toNat_inj]
  simp only [SimStateHeader.ofState, UInt64.toNat_toUInt32]
  rfl

/-- The particles of a state are those of the last call that set some. -/
theorem Snapshot.state_particles {simRank : Int32} (q : Snapshot simRank)
    {before after : List SetCall} {np ng stride data : UInt64}
    (hcalls : q.calls = before ++ SetCall.particles np ng stride data :: after)
    (hafter : ∀ c ∈ after, c.particles? = none) :
    q.state.particles = setParticles np ng stride data := by
  have hsplit : q.calls = (before ++ [SetCall.particles np ng stride data]) ++ after := by
    rw [hcalls, List.append_assoc, List.singleton_append]
  have hlast : SetCall.lastSome SetCall.particles? q.calls =
      some (setParticles np ng stride data) := by
    rw [hsplit, SetCall.lastSome_append_of_none _ _ _ hafter, SetCall.lastSome_concat]
    rfl
  rw [Snapshot.state, build_particles, hlast, Option.getD_some]

/-- Without the flag the region has no particle array at all. -/
theorem Snapshot.not_same_of_flag_zero {simRank : Int32} (q : Snapshot simRank) (p : Particles)
    (hflag : (SimStateHeader.ofState q.state).hasParticles = 0) :
    ¬ SameParticles q.mem p q.region.particles := by
  intro hsame
  obtain ⟨a, c, -, hc, -⟩ := hsame.array
  have hnone : q.region.particles = Particles.none := by
    rw [Snapshot.region, Snapshot.regionParticles, if_neg (not_not.2 hflag)]
  rw [hnone] at hc
  exact absurd hc (by simp [Particles.none])

/-- **Particle delivery.** The particles a rank has set arrive, counts, stride and bytes, if and
    only if the low 32 bits of `numParticles` are not all zero. -/
theorem particles_delivered_iff {simRank : Int32} (q : Snapshot simRank)
    (before after : List SetCall) (numParticles numGhostParticles particleStride data : UInt64)
    (hcalls : q.calls = before ++
      SetCall.particles numParticles numGhostParticles particleStride data :: after)
    (hafter : ∀ c ∈ after, c.particles? = none) :
    (∃ region, q.Delivers region ∧
        SameParticles q.mem (setParticles numParticles numGhostParticles particleStride data)
          region.particles) ↔
      numParticles.toNat % 2 ^ 32 ≠ 0 := by
  have hstate := q.state_particles hcalls hafter
  have hflag := hasParticles_eq_zero_iff q.state
  rw [hstate] at hflag
  constructor
  · rintro ⟨region, hdelivers, hsame⟩ hzero
    rw [q.delivers_iff] at hdelivers
    subst hdelivers
    exact q.not_same_of_flag_zero _ (hflag.2 hzero) hsame
  · intro hnonzero
    refine ⟨q.region, (q.delivers_iff _).2 rfl, ?_⟩
    have hregion : q.region.particles = q.state.particles.received q.mem := by
      rw [Snapshot.region, Snapshot.regionParticles, if_pos (fun h => hnonzero (hflag.1 h))]
    rw [hregion, hstate]
    exact Particles.same_received q.mem rfl trivial

/-- A rank with one ghost particle of 8 bytes and none of its own. -/
def ghostOnly : Snapshot 0 where
  calls := [.particles 0 1 8 0]
  mem := fun _ => 255
  order := []
  iterates := Snapshot.noBuffers_iterates
  size_lt := Snapshot.noBuffers_lt

/-- The particles of a rank that holds only ghosts are lost. -/
theorem ghostOnly_particles_lost :
    ¬ ∃ region, ghostOnly.Delivers region ∧
      SameParticles ghostOnly.mem (setParticles 0 1 8 0) region.particles := by
  rintro ⟨region, hdelivers, hsame⟩
  rw [ghostOnly.delivers_iff] at hdelivers
  subst hdelivers
  exact ghostOnly.not_same_of_flag_zero _ rfl hsame

/-- A rank with two particles, one of them a ghost. -/
def oneAndGhost : Snapshot 0 where
  calls := [.particles 1 1 8 0, .worldBounds zeroBox]
  mem := fun _ => 255
  order := []
  iterates := Snapshot.noBuffers_iterates
  size_lt := Snapshot.noBuffers_lt

theorem oneAndGhost_particles_delivered :
    ∃ region, oneAndGhost.Delivers region ∧
      SameParticles oneAndGhost.mem (setParticles 1 1 8 0) region.particles :=
  (particles_delivered_iff oneAndGhost [] [.worldBounds zeroBox] 1 1 8 0 rfl
    (by simp [SetCall.particles?])).2 (by decide)

end LibIS
