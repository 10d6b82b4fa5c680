import LibIS.ParticleDelivery

set_option autoImplicit false

/-! # Arrays and what is said about them (`Array`, `Buffer`, `Particles`)

A buffer keeps its dimensions and type in one object and its byte count and stride in another, and
nothing checks one against the other; a client indexes the array by the former. `Buffer.Fits` and
`Particles.Fits` say that the two agree. They do after any calls of the setters whose byte counts
are `uint64_t` (`SetCall.Fits`), and the copy a client makes of an array keeps its stride and its
byte count (`DataArray.Counts.received`). -/

namespace LibIS

/-! ## Elements -/

/-- `Array::size`. With a stride of zero the division is undefined. -/
def DataArray.size (a : DataArray) : UInt64 :=
  a.numBytes / a.stride

/-- The array is `n` elements of `stride()` bytes. -/
structure DataArray.Counts (a : DataArray) (n : ℕ) : Prop where
  stride_pos : 0 < a.stride
  size_mul_stride : a.size.toNat * a.stride.toNat = a.numBytes.toNat
  size_eq : a.size.toNat = n

/-- The exact product of dimensions. -/
def Dims.product (dims : Dims) : ℕ :=
  (dims.toList.map UInt64.toNat).prod

theorem Dims.product_eq (dims : Dims) :
    dims.product = (dims.get 0).toNat * (dims.get 1).toNat * (dims.get 2).toNat := by
  obtain ⟨x, v, rfl⟩ := dims.exists_eq_cons
  obtain ⟨y, w, rfl⟩ := v.exists_eq_cons
  obtain ⟨z, u, rfl⟩ := w.exists_eq_cons
  rw [List.Vector.eq_nil u]
  show x.toNat * (y.toNat * (z.toNat * 1)) = x.toNat * y.toNat * z.toNat
  rw [Nat.mul_one, Nat.mul_assoc]

/-- The array of a buffer has as many elements as its dimensions say, of its type. -/
structure Buffer.Fits (b : Buffer) (a : DataArray) : Prop where
  counts : a.Counts b.dims.product
  stride_eq : a.stride = dtypeStride b.dataType

/-- The array of the particles has as many elements as there are particles and ghosts. -/
structure Particles.Fits (p : Particles) (a : DataArray) : Prop where
  counts : a.Counts (p.numParticles.toNat + p.numGhost.toNat)

/-- The arrays of a state are as it says. -/
structure SimState.Fits (s : SimState) : Prop where
  buffers : ∀ name b a, s.buffers.lookup name = some b → b.array = some a → b.Fits a
  particles : ∀ a, s.particles.array = some a → s.particles.Fits a

/-- Everything a state says about an array is from the last call for it. -/
structure SimState.AsLastSet (calls : List SetCall) (s : SimState) : Prop where
  buffers : ∀ name b, s.buffers.lookup name = some b →
    ∃ last, SetCall.lastSome (SetCall.buffer? name) calls = some last ∧ b.dims = last.dims ∧
      b.dataType = last.dataType ∧
      b.array.map DataArray.stride = last.array.map DataArray.stride
  particles : ∀ a, s.particles.array = some a →
    ∃ last, SetCall.lastSome SetCall.particles? calls = some last ∧
      s.particles.numParticles = last.numParticles ∧ s.particles.numGhost = last.numGhost ∧
      some a.stride = last.array.map DataArray.stride

/-- A call whose exact byte count is a `uint64_t`, with elements of a type that is not `INVALID` or
    particles of at least one byte. (The byte count of `libISSetBuffer` is an argument.) -/
def SetCall.Fits : SetCall → Prop
  | .field _ dimensions type _ =>
      type ≠ .invalid ∧ dimensions.product * (dtypeStride type).toNat < 2 ^ 64
  | .particles numParticles numGhostParticles particleStride _ =>
      0 < particleStride ∧
        (numParticles.toNat + numGhostParticles.toNat) * particleStride.toNat < 2 ^ 64
  | _ => True

theorem DataArray.counts_of_bytes {a : DataArray} {n : ℕ} (hpos : 0 < a.stride)
    (hbytes : a.numBytes.toNat = n * a.stride.toNat) : a.Counts n := by
  have hpos' : 0 < a.stride.toNat := UInt64.lt_iff_toNat_lt.1 hpos
  have hsize : a.size.toNat = n := by
    rw [DataArray.size, UInt64.toNat_div, hbytes, Nat.mul_div_cancel n hpos']
  exact ⟨hpos, by rw [hsize, hbytes], hsize⟩

theorem dtypeStride_pos {type : DType} (h : type ≠ .invalid) : 0 < dtypeStride type := by
  cases type with
  | uint8 => decide
  | float => decide
  | double => decide
  | invalid => exact absurd rfl h

/-! ## What the setters make -/

theorem fieldBuffer_fits {name : StdString} {dimensions : Dims} {type : DType} {data : UInt64}
    (htype : type ≠ .invalid)
    (hbytes : dimensions.product * (dtypeStride type).toNat < 2 ^ 64) {a : DataArray}
    (ha : (fieldBuffer name dimensions type data).array = some a) :
    (fieldBuffer name dimensions type data).Fits a := by
  obtain rfl := Option.some.inj ha
  refine ⟨DataArray.counts_of_bytes (dtypeStride_pos htype) ?_, rfl⟩
  show (dimensions.get 0 * dimensions.get 1 * dimensions.get 2 * dtypeStride type).toNat =
    dimensions.product * (dtypeStride type).toNat
  rw [Dims.product_eq] at hbytes ⊢
  -- the products wrap, but all of them at 2^64, so only the last matters
  rw [UInt64.toNat_mul, UInt64.toNat_mul, UInt64.toNat_mul, Nat.mod_mul_mod, Nat.mul_assoc,
    Nat.mod_mul_mod, ← Nat.mul_assoc]
  exact Nat.mod_eq_of_lt hbytes

theorem bytesBuffer_fits {name : StdString} {size data : UInt64} {a : DataArray}
    (ha : (bytesBuffer name size data).array = some a) :
    (bytesBuffer name size data).Fits a := by
  obtain rfl := Option.some.inj ha
  have hone : (0 : UInt64) < 1 := by decide
  refine ⟨DataArray.counts_of_bytes hone ?_, rfl⟩
  show size.toNat = size.toNat * 1 * 1
  rw [Nat.mul_one, Nat.mul_one]

theorem setParticles_fits {numParticles numGhostParticles particleStride data : UInt64}
    (hstride : 0 < particleStride)
    (hbytes : (numParticles.toNat + numGhostParticles.toNat) * particleStride.toNat < 2 ^ 64)
    {a : DataArray}
    (ha : (setParticles numParticles numGhostParticles particleStride data).array = some a) :
    (setParticles numParticles numGhostParticles particleStride data).Fits a := by
  obtain rfl := Option.some.inj ha
  refine ⟨DataArray.counts_of_bytes hstride ?_⟩
  show ((numParticles + numGhostParticles) * particleStride).toNat =
    (numParticles.toNat + numGhostParticles.toNat) * particleStride.toNat
  rw [UInt64.toNat_mul, UInt64.toNat_add, Nat.mod_mul_mod, Nat.mod_eq_of_lt hbytes]

theorem SetCall.buffer_fits {c : SetCall} (hc : c.Fits) {name : StdString} {b : Buffer}
    (hb : c.buffer? name = some b) {a : DataArray} (ha : b.array = some a) : b.Fits a := by
  cases c with
  | field n dimensions type data =>
      simp only [SetCall.buffer?, Option.ite_none_right_eq_some, Option.some.injEq] at hb
      obtain ⟨-, rfl⟩ := hb
      exact fieldBuffer_fits hc.1 hc.2 ha
  | buffer n size data =>
      simp only [SetCall.buffer?, Option.ite_none_right_eq_some, Option.some.injEq] at hb
      obtain ⟨-, rfl⟩ := hb
      exact bytesBuffer_fits ha
  | worldBounds box => exact absurd hb (by simp [SetCall.buffer?])
  | localBounds box => exact absurd hb (by simp [SetCall.buffer?])
  | ghostBounds box => exact absurd hb (by simp [SetCall.buffer?])
  | particles np ng stride data => exact absurd hb (by simp [SetCall.buffer?])

theorem SetCall.particles_fits {c : SetCall} (hc : c.Fits) {p : Particles}
    (hp : c.particles? = some p) {a : DataArray} (ha : p.array = some a) : p.Fits a := by
  cases c with
  | particles np ng stride data =>
      obtain rfl := Option.some.inj hp
      exact setParticles_fits hc.1 hc.2 ha
  | _ => exact absurd hp (by simp [SetCall.particles?])

theorem SetCall.exists_of_lastSome {α : Type} {f : SetCall → Option α} {calls : List SetCall}
    {x : α} (h : SetCall.lastSome f calls = some x) : ∃ c ∈ calls, f c = some x := by
  obtain ⟨c, hc, hx⟩ := List.exists_of_findSome?_eq_some h
  exact ⟨c, List.mem_reverse.1 hc, hx⟩

/-! ## The state of the simulation -/

section Build

variable {simRank : Int32} {calls : List SetCall}

/-- Particles with an array are those of the last call for them. -/
theorem build_particles_last {a : DataArray}
    (ha : (buildState simRank calls).particles.array = some a) :
    SetCall.lastSome SetCall.particles? calls = some (buildState simRank calls).particles := by
  have hbuild := build_particles simRank calls
  cases hlast : SetCall.lastSome SetCall.particles? calls with
  | none =>
      rw [hlast, Option.getD_none] at hbuild
      rw [hbuild] at ha
      exact absurd ha (by simp [Particles.none])
  | some p =>
      rw [hlast, Option.getD_some] at hbuild
      rw [hbuild]

theorem buildState_fits (hcalls : ∀ c ∈ calls, c.Fits) : (buildState simRank calls).Fits where
  buffers name b a hb ha := by
    rw [build_lookup] at hb
    obtain ⟨c, hc, hset⟩ := SetCall.exists_of_lastSome hb
    exact SetCall.buffer_fits (hcalls c hc) hset ha
  particles a ha := by
    obtain ⟨c, hc, hset⟩ := SetCall.exists_of_lastSome (build_particles_last ha)
    exact SetCall.particles_fits (hcalls c hc) hset ha

theorem buildState_asLastSet (simRank : Int32) (calls : List SetCall) :
    (buildState simRank calls).AsLastSet calls where
  buffers name b hb := by
    rw [build_lookup] at hb
    exact ⟨b, hb, rfl, rfl, rfl⟩
  particles a ha :=
    ⟨_, build_particles_last ha, rfl, rfl, by rw [ha, Option.map_some]⟩

end Build

/-! ## The region of a client -/

section Region

/-- The copy of an array counts what the array does. -/
theorem DataArray.Counts.received {a : DataArray} {n : ℕ} (h : a.Counts n) (mem : Memory)
    (hsized : a.Sized) : (a.received mem).Counts n := by
  have hbytes : (a.received mem).numBytes = a.numBytes := (a.same_received mem hsized).numBytes
  have hsize : (a.received mem).size = a.size := by
    rw [DataArray.size, hbytes]
    rfl
  exact ⟨h.stride_pos, by rw [hsize, hbytes]; exact h.size_mul_stride,
    by rw [hsize]; exact h.size_eq⟩

theorem received_array {o : Option DataArray} {mem : Memory} {c : DataArray}
    (hc : o.map (DataArray.received mem) = some c) : ∃ a, o = some a ∧ c = a.received mem := by
  obtain ⟨a, ha, rfl⟩ := Option.map_eq_some_iff.1 hc
  exact ⟨a, ha, rfl⟩

variable {simRank : Int32} (q : Snapshot simRank)

/-- A region has the copy of each buffer of the state. -/
theorem Snapshot.region_buffer {name : StdString} {b : Buffer}
    (hb : q.region.buffers.lookup name = some b) :
    ∃ b₀, q.state.buffers.lookup name = some b₀ ∧ b = b₀.received q.mem := by
  rw [q.region_lookup, ← build_lookup simRank] at hb
  obtain ⟨b₀, hb₀, rfl⟩ := Option.map_eq_some_iff.1 hb
  exact ⟨b₀, hb₀, rfl⟩

/-- Particles of a region that have an array are the copy of those of the state. -/
theorem Snapshot.region_particles {c : DataArray} (hc : q.region.particles.array = some c) :
    q.region.particles = q.state.particles.received q.mem ∧
      ∃ a, q.state.particles.array = some a ∧ c = a.received q.mem ∧ a.Sized := by
  by_cases hflag : (SimStateHeader.ofState q.state).hasParticles ≠ 0
  · have hregion : q.region.particles = q.state.particles.received q.mem := by
      rw [Snapshot.region, Snapshot.regionParticles, if_pos hflag]
    rw [hregion] at hc
    obtain ⟨a, ha, rfl⟩ := received_array hc
    obtain ⟨a', ha', hsized⟩ := q.particles_array hflag
    obtain rfl := Option.some.inj (ha.symm.trans ha')
    exact ⟨hregion, a, ha, rfl, hsized⟩
  · have hregion : q.region.particles = Particles.none := by
      rw [Snapshot.region, Snapshot.regionParticles, if_neg hflag]
    rw [hregion] at hc
    exact absurd hc (by simp [Particles.none])

theorem Snapshot.region_fits (hstate : q.state.Fits) : q.region.Fits where
  buffers name b c hb hc := by
    obtain ⟨b₀, hb₀, rfl⟩ := q.region_buffer hb
    obtain ⟨a, ha, rfl⟩ := received_array hc
    obtain ⟨-, stride, data, n, harray⟩ := build_entry simRank q.calls name b₀ hb₀
    have hsized : a.Sized := by
      obtain rfl := Option.some.inj (ha.symm.trans harray)
      exact trivial
    obtain ⟨hcounts, hstride⟩ := hstate.buffers name b₀ a hb₀ ha
    exact ⟨hcounts.received q.mem hsized, hstride⟩
  particles c hc := by
    obtain ⟨hregion, a, ha, rfl, hsized⟩ := q.region_particles hc
    rw [hregion]
    exact ⟨(hstate.particles a ha).counts.received q.mem hsized⟩

theorem Snapshot.region_asLastSet : q.region.AsLastSet q.calls where
  buffers name b hb := by
    obtain ⟨b₀, hb₀, rfl⟩ := q.region_buffer hb
    obtain ⟨last, hlast, hdims, htype, hstride⟩ :=
      (buildState_asLastSet simRank q.calls).buffers name b₀ hb₀
    refine ⟨last, hlast, hdims, htype, ?_⟩
    rw [← hstride, Buffer.received, Option.map_map]
    rfl
  particles c hc := by
    obtain ⟨hregion, a, ha, rfl, -⟩ := q.region_particles hc
    rw [hregion]
    exact (buildState_asLastSet simRank q.calls).particles a ha

end Region

/-- **Metadata.** After any calls of the setters whose byte counts fit, every array in the state of
    the simulation, and every array in a region that a client receives from it, has a positive
    stride, that of its type, and as many elements as the dimensions or the particle counts say,
    which fill it; and all that is said of it is from the last call for it. -/
theorem metadata_fits (simRank : Int32) (calls : List SetCall) (hcalls : ∀ c ∈ calls, c.Fits) :
    (buildState simRank calls).Fits ∧ (buildState simRank calls).AsLastSet calls ∧
      ∀ q : Snapshot simRank, q.calls = calls → ∀ region, q.Delivers region →
        region.Fits ∧ region.AsLastSet calls := by
  refine ⟨buildState_fits hcalls, buildState_asLastSet simRank calls, ?_⟩
  rintro q rfl region hdelivers
  rw [q.delivers_iff] at hdelivers
  subst hdelivers
  exact ⟨q.region_fits (buildState_fits hcalls), q.region_asLastSet⟩

/-- A field of doubles set again as bytes, and particles of 16 bytes. -/
theorem metadata_fits_reset :
    (buildState 0 [.field ⟨[120], by decide⟩ ⟨[2, 3, 4], rfl⟩ .double 0,
      .particles 5 1 16 0, .buffer ⟨[120], by decide⟩ 7 0]).Fits :=
  (metadata_fits 0 [.field ⟨[120], by decide⟩ ⟨[2, 3, 4], rfl⟩ .double 0,
    .particles 5 1 16 0, .buffer ⟨[120], by decide⟩ 7 0] (by
      intro c hc
      simp only [List.mem_cons, List.not_mem_nil, or_false] at hc
      rcases hc with rfl | rfl | rfl
      · exact ⟨by decide, by decide⟩
      · exact ⟨by decide, by decide⟩
      · exact trivial)).1

end LibIS
