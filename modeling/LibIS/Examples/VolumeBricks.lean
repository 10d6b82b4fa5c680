import LibIS.Examples.Volume

set_option autoImplicit false

/-! # The bricks of a volume (`volume_example_sim.cpp`)

What a rank of the volume example holds after loading, and how the bricks of
all ranks fit together: they are disjoint, and what they leave out of the volume is
what the division of its size by the grid leaves over. -/

open ByteCodec Tables

namespace LibIS

/-! ## One brick -/

section Brick

variable {file : RawFile} {w : ℕ} {vol dims offset : Vec3 ℕ}

theorem voxel_of_layers (hfile : vol.volume * w ≤ file.bytes.length)
    (hx : offset.x + dims.x ≤ vol.x) (hy : offset.y + dims.y ≤ vol.y)
    (hz : offset.z + dims.z ≤ vol.z) {n : ℕ} (hn : n ≤ dims.z) {x y z : ℕ} (hx' : x < dims.x)
    (hy' : y < dims.y) (hz' : z < dims.z) :
    ((file.block w vol offset (dims.withLayers n) ++
        zeros ((dims.withLayers (dims.z - n)).volume * w)).drop
      (cell dims.x dims.y x y z * w)).take w =
      if z < n then
        file.voxel w (cell vol.x vol.y (offset.x + x) (offset.y + y) (offset.z + z))
      else zeros w := by
  have hlayers : offset.z + (dims.withLayers n).z ≤ vol.z := by
    simp only [Vec3.withLayers]
    omega
  have hlength : (file.block w vol offset (dims.withLayers n)).length =
      (dims.withLayers n).volume * w := file.block_length hfile hx hy hlayers
  by_cases hloaded : z < n
  · rw [if_pos hloaded]
    -- the voxel is in the layers that have been read
    have hplace : cell dims.x dims.y x y z + 1 ≤ n * dims.y * dims.x := cell_lt hx' hy' hloaded
    have hroom : cell dims.x dims.y x y z * w + w ≤
        (file.block w vol offset (dims.withLayers n)).length := by
      rw [hlength, withLayers_volume, ← Nat.mul_assoc, ← Nat.succ_mul]
      exact Nat.mul_le_mul_right w hplace
    rw [List.drop_append_of_le_length (by omega),
      List.take_append_of_le_length (by rw [List.length_drop]; omega)]
    exact @RawFile.block_voxel file w vol (dims.withLayers n) offset hfile hx hy hlayers x y z hx' hy'
      hloaded
  · rw [if_neg hloaded]
    -- it lies in the zeros behind them
    have hplace : cell dims.x dims.y x y z + 1 ≤ dims.z * dims.y * dims.x := cell_lt hx' hy' hz'
    have hafter : (dims.withLayers n).volume ≤ cell dims.x dims.y x y z := by
      rw [withLayers_volume, cell, ← Nat.mul_assoc]
      exact (Nat.mul_le_mul_right dims.x (by
        exact (Nat.mul_le_mul_right dims.y (Nat.le_of_not_lt hloaded)).trans
          (Nat.le_add_right _ y))).trans (Nat.le_add_right _ x)
    have hstart : (file.block w vol offset (dims.withLayers n)).length ≤
        cell dims.x dims.y x y z * w := by
      rw [hlength]
      exact Nat.mul_le_mul_right w hafter
    have hend : cell dims.x dims.y x y z * w + w ≤
        (file.block w vol offset (dims.withLayers n)).length +
          (dims.withLayers (dims.z - n)).volume * w := by
      rw [hlength, withLayers_volume, withLayers_volume, ← Nat.add_mul, ← Nat.add_mul,
        Nat.add_sub_cancel' hn, ← Nat.mul_assoc, ← Nat.succ_mul]
      exact Nat.mul_le_mul_right w hplace
    rw [List.drop_append, List.drop_eq_nil_of_le hstart, List.nil_append, zeros, List.drop_replicate,
      List.take_replicate, zeros]
    congr 1
    omega

end Brick

/-! ## Loading a brick -/

section Load

variable {mpi : FileAccess} {name dtype : String} {file : RawFile} {voxelSize : UInt64}
  {vol dims offset : Vec3 ℕ} {data : Bytes}

/-- `load_raw_volume` returns just when a layer of the brick fits into a read. -/
theorem loadRawVolume_iff (hmpi : mpi.Documented) (hdtype : voxelSizeOf dtype = .ok voxelSize)
    (h : BrickIn voxelSize.toNat vol dims offset)
    (hfile : vol.volume * voxelSize.toNat ≤ file.bytes.length)
    (hsucceeds : ∀ i, file.succeeds i = true) :
    (∃ data, loadRawVolume mpi name (some file) dtype vol.ints dims.ints offset.ints = .ok data) ↔
      dims.y * dims.x * voxelSize.toNat ≤ 2147483647 := by
  have hpos := (voxelSizeOf_cases hdtype).1
  have hfits : dims.y * dims.x ≤ elementsPerRead voxelSize.toNat ↔
      dims.y * dims.x * voxelSize.toNat ≤ 2147483647 := Nat.le_div_iff_mul_le hpos
  rw [← hfits]
  constructor
  · rintro ⟨data, hdata⟩
    exact Nat.le_of_not_lt (fun hlarge => loadRawVolume_large hmpi hdtype h hlarge data hdata)
  · exact fun hlayer => ⟨_, loadRawVolume_eq hmpi hdtype h hlayer hfile hsucceeds⟩

theorem loadRawVolume_voxels (hmpi : mpi.Documented) (hdtype : voxelSizeOf dtype = .ok voxelSize)
    (h : BrickIn voxelSize.toNat vol dims offset)
    (hfile : vol.volume * voxelSize.toNat ≤ file.bytes.length)
    (hsucceeds : ∀ i, file.succeeds i = true)
    (hdata : loadRawVolume mpi name (some file) dtype vol.ints dims.ints offset.ints = .ok data) :
    data.length = dims.volume * voxelSize.toNat ∧
      ∀ x y z, x < dims.x → y < dims.y → z < dims.z →
        (data.drop (cell dims.x dims.y x y z * voxelSize.toNat)).take voxelSize.toNat =
          if z < layersRead voxelSize.toNat dims then
            file.voxel voxelSize.toNat
              (cell vol.x vol.y (offset.x + x) (offset.y + y) (offset.z + z))
          else zeros voxelSize.toNat := by
  have hle := layersRead_le voxelSize.toNat dims
  have hlayer : dims.y * dims.x ≤ elementsPerRead voxelSize.toNat :=
    Nat.le_of_not_lt (fun hlarge => loadRawVolume_large hmpi hdtype h hlarge data hdata)
  have heq := Except.ok.inj
    (hdata.symm.trans (loadRawVolume_eq hmpi hdtype h hlayer hfile hsucceeds))
  subst heq
  have hlayers : offset.z + (dims.withLayers (layersRead voxelSize.toNat dims)).z ≤ vol.z := by
    have hz := h.z_le
    simp only [Vec3.withLayers]
    omega
  have hlength : (file.block voxelSize.toNat vol offset
      (dims.withLayers (layersRead voxelSize.toNat dims))).length =
        (dims.withLayers (layersRead voxelSize.toNat dims)).volume * voxelSize.toNat :=
    file.block_length hfile h.x_le h.y_le hlayers
  refine ⟨?_, fun x y z hx hy hz => ?_⟩
  · rw [List.length_append, zeros_length, hlength, withLayers_volume, withLayers_volume,
      ← Nat.add_mul, ← Nat.add_mul, Nat.add_sub_cancel' hle, ← volume_layers]
  · exact voxel_of_layers hfile h.x_le h.y_le h.z_le hle hx hy hz

/-- A brick without voxels is not loaded: the number of its layers is divided by no reads. -/
theorem loadRawVolume_empty (hdtype : voxelSizeOf dtype = .ok voxelSize)
    (hnone : dims.x = 0 ∨ dims.y = 0 ∨ dims.z = 0) (file : Option RawFile) :
    loadRawVolume mpi name file dtype vol.ints dims.ints offset.ints =
      .error (.arithmetic .divisionByZero) := by
  have hzero : sizeOfInt dims.ints.x * sizeOfInt dims.ints.y * sizeOfInt dims.ints.z = 0 := by
    have hsize : sizeOfInt 0 = 0 := rfl
    rcases hnone with h | h | h <;> simp [Vec3.ints, h, hsize]
  have hplan : planChunks voxelSize dims.ints = .error (.arithmetic .divisionByZero) := by
    unfold planChunks
    dsimp only
    rw [hzero, UInt64.zero_div, UInt64.zero_mod]
    rfl
  rw [loadRawVolume, hdtype, VolumeFault.ok_bind, hplan]
  rfl

end Load

/-- **Loading a brick.** Where MPI reads what it documents and no read fails, `load_raw_volume`
    returns just when a layer of the brick is at most as large as a read may be; and no read asks
    for more. What it returns has the size of the brick. Its layers are those of the file up to the
    last that is read, and zero from there on; all layers are read just when they can be dealt to
    the reads evenly. -/
theorem raw_volume_loaded (mpi : FileAccess) (hmpi : mpi.Documented) (name dtype : String)
    (file : RawFile) (voxelSize : UInt64) (vol dims offset : Vec3 ℕ)
    (hdtype : voxelSizeOf dtype = .ok voxelSize) (h : BrickIn voxelSize.toNat vol dims offset)
    (hfile : vol.volume * voxelSize.toNat ≤ file.bytes.length)
    (hsucceeds : ∀ i, file.succeeds i = true) :
    ((∃ data, loadRawVolume mpi name (some file) dtype vol.ints dims.ints offset.ints =
          .ok data) ↔ dims.y * dims.x * voxelSize.toNat ≤ 2147483647) ∧
      (∀ p i count, planChunks voxelSize dims.ints = .ok p → i < p.nChunks.toNat →
        ChunkPlan.chunkVoxels (p.chunkDims dims.ints (UInt64.ofNat i)) = .ok count →
          count * voxelSize.toNat ≤ 2147483647) ∧
      (layersRead voxelSize.toNat dims = dims.z ↔ readCount voxelSize.toNat dims ∣ dims.z) ∧
      ∀ data, loadRawVolume mpi name (some file) dtype vol.ints dims.ints offset.ints = .ok data →
        data.length = dims.volume * voxelSize.toNat ∧
        ∀ x y z, x < dims.x → y < dims.y → z < dims.z →
          (data.drop (cell dims.x dims.y x y z * voxelSize.toNat)).take voxelSize.toNat =
            if z < layersRead voxelSize.toNat dims then
              file.voxel voxelSize.toNat
                (cell vol.x vol.y (offset.x + x) (offset.y + y) (offset.z + z))
            else zeros voxelSize.toNat := by
  obtain ⟨hpos, hsize⟩ := voxelSizeOf_cases hdtype
  refine ⟨loadRawVolume_iff hmpi hdtype h hfile hsucceeds, ?_, ?_, ?_⟩
  · intro p i count hplan hi hcount
    obtain ⟨p', hplan', hp⟩ := planChunks_eq h hpos hsize
    obtain rfl := Except.ok.inj (hplan'.symm.trans hplan)
    have hle := hp.count_le h hsize (hp.nChunks ▸ hi) hcount
    have hread : elementsPerRead voxelSize.toNat * voxelSize.toNat ≤ 2147483647 :=
      Nat.div_mul_le_self _ _
    calc count * voxelSize.toNat ≤ elementsPerRead voxelSize.toNat * voxelSize.toNat :=
          Int.mul_le_mul_of_nonneg_right hle (Int.natCast_nonneg _)
      _ ≤ 2147483647 := by exact_mod_cast hread
  · exact ⟨fun hall => ⟨_, hall.symm⟩, fun hdvd => Nat.mul_div_cancel' hdvd⟩
  · exact fun data hdata => loadRawVolume_voxels hmpi hdtype h hfile hsucceeds hdata

/-- A file of the bytes 1 to 12. -/
def countingFile : RawFile :=
  ⟨(List.range 12).map (fun i => UInt8.ofNat (i + 1)), fun _ => true⟩

/-- Half of a volume of twelve voxels has the last of them. -/
theorem raw_volume_loaded_half : ∃ data, loadRawVolume .plain "half.raw" (some countingFile)
    "uint8" (⟨2, 2, 3⟩ : Vec3 ℕ).ints (⟨1, 2, 3⟩ : Vec3 ℕ).ints (⟨1, 0, 0⟩ : Vec3 ℕ).ints =
      .ok data ∧ (data.drop 5).take 1 = [12] := by
  have hbrick : BrickIn (1 : UInt64).toNat ⟨2, 2, 3⟩ ⟨1, 2, 3⟩ ⟨1, 0, 0⟩ :=
    ⟨⟨by decide, by decide, by decide⟩, by decide, by decide, by decide, by decide, by decide,
      by decide, by decide⟩
  obtain ⟨hloads, -, -, hvoxels⟩ := raw_volume_loaded .plain FileAccess.documented_plain "half.raw"
    "uint8" countingFile 1 ⟨2, 2, 3⟩ ⟨1, 2, 3⟩ ⟨1, 0, 0⟩ rfl hbrick (by decide) (fun _ => rfl)
  obtain ⟨data, hdata⟩ := hloads.2 (by decide)
  exact ⟨data, hdata, (hvoxels data hdata).2 0 1 2 (by decide) (by decide) (by decide)⟩

/-- Two reads of 1024 layers each leave out the last layer of 2049. -/
example : readCount 1 ⟨1024, 1024, 2049⟩ = 2 ∧ layersRead 1 ⟨1024, 1024, 2049⟩ = 2048 := by
  decide

/-! ## The bricks of all ranks -/

/-- The grid of a number of ranks. -/
def gridOf (mpiSize : ℕ) : Vec3 ℕ :=
  (⟨1, 1, 1⟩ : Vec3 ℕ).dealt 0 mpiSize

/-- The size of the bricks of a volume. -/
def brickDims (vol grid : Vec3 ℕ) : Vec3 ℕ :=
  ⟨vol.x / grid.x, vol.y / grid.y, vol.z / grid.z⟩

/-- The cell of a rank. -/
def rankCell (grid : Vec3 ℕ) (rank : ℕ) : Vec3 ℕ :=
  ⟨rank % grid.x, rank / grid.x % grid.y, rank / (grid.x * grid.y)⟩

/-- Where the brick of a cell starts. -/
def brickLower (vol grid c : Vec3 ℕ) : Vec3 ℕ :=
  ⟨c.x * (vol.x / grid.x), c.y * (vol.y / grid.y), c.z * (vol.z / grid.z)⟩

/-- Where the brick of a cell ends. -/
def brickUpper (vol grid c : Vec3 ℕ) : Vec3 ℕ :=
  ⟨c.x * (vol.x / grid.x) + vol.x / grid.x, c.y * (vol.y / grid.y) + vol.y / grid.y,
    c.z * (vol.z / grid.z) + vol.z / grid.z⟩

/-- A voxel of the volume lies in a brick. -/
def VolumeBrick.Has (brick : VolumeBrick) (v : Vec3 ℕ) : Prop :=
  (brick.lower.x ≤ v.x ∧ v.x < brick.upper.x) ∧ (brick.lower.y ≤ v.y ∧ v.y < brick.upper.y) ∧
    (brick.lower.z ≤ v.z ∧ v.z < brick.upper.z)

/-- The bytes that a brick has for a voxel of the volume. -/
def VolumeBrick.voxelAt (brick : VolumeBrick) (voxelSize : ℕ) (v : Vec3 ℕ) : Bytes :=
  (brick.voxelData.drop (cell brick.dims.x.toNat brick.dims.y.toNat (v.x - brick.lower.x.toNat)
    (v.y - brick.lower.y.toNat) (v.z - brick.lower.z.toNat) * voxelSize)).take voxelSize

section Grid

variable {vol g c : Vec3 ℕ} {rank mpiSize : ℕ}

theorem volume_gridOf (hpos : 1 ≤ mpiSize) : (gridOf mpiSize).volume = mpiSize := by
  rw [gridOf, Vec3.volume_dealt (by omega)]
  simp [Vec3.volume]

theorem positive_gridOf (hpos : 1 ≤ mpiSize) : (gridOf mpiSize).Positive := by
  have hvolume : 0 < (gridOf mpiSize).x * (gridOf mpiSize).y * (gridOf mpiSize).z :=
    Nat.lt_of_lt_of_eq hpos (volume_gridOf hpos).symm
  have hxy := Nat.pos_of_mul_pos_right hvolume
  exact ⟨Nat.pos_of_mul_pos_right hxy, Nat.pos_of_mul_pos_left hxy,
    Nat.pos_of_mul_pos_left hvolume⟩

theorem rankCell_ints (g : Vec3 ℕ) (rank : ℕ) : (rankCell g rank).ints = cellOf g.ints rank := by
  simp only [rankCell, cellOf, Vec3.ints, Nat.cast_mul, Int.natCast_emod, Int.natCast_ediv]

theorem rankCell_lt (hg : g.Positive) (hrank : rank < g.volume) :
    (rankCell g rank).x < g.x ∧ (rankCell g rank).y < g.y ∧ (rankCell g rank).z < g.z :=
  ⟨Nat.mod_lt _ hg.x, Nat.mod_lt _ hg.y, Nat.div_lt_of_lt_mul hrank⟩

/-- A cell of the grid is that of one rank. -/
theorem rankCell_existsUnique (hg : g.Positive) (hx : c.x < g.x) (hy : c.y < g.y)
    (hz : c.z < g.z) : ∃! rank, rank < g.volume ∧ rankCell g rank = c := by
  have hvolume : g.ints.x * g.ints.y * g.ints.z = (g.volume : ℤ) := by
    simp [Vec3.ints, Vec3.volume]
  have hints : ∀ a b : Vec3 ℕ, a.ints = b.ints ↔ a = b := by
    rintro ⟨x, y, z⟩ ⟨x', y', z'⟩
    simp [Vec3.ints]
  obtain ⟨-, hinj, hsurj⟩ := cellOf_bijOn g.ints (Int.natCast_pos.2 hg.x) (Int.natCast_pos.2 hg.y)
  rw [hvolume] at hinj hsurj
  have hcell : c.ints ∈ cells g.ints := by
    simp only [cells, Vec3.ints, Set.mem_ofPred_eq]
    omega
  obtain ⟨rank, ⟨hzero, hlt⟩, hrank⟩ := hsurj hcell
  obtain ⟨r, rfl⟩ := Int.eq_ofNat_of_zero_le hzero
  refine ⟨r, ⟨by omega, (hints _ _).1 ((rankCell_ints g r).trans hrank)⟩, ?_⟩
  rintro r' ⟨hlt', hcell'⟩
  have heq : cellOf g.ints r' = cellOf g.ints r := by
    rw [← rankCell_ints, hcell', ← hrank]
  have := hinj ⟨by omega, by omega⟩ ⟨hzero, hlt⟩ heq
  omega

/-- The bricks of an axis are those of the quotients. -/
theorem div_eq_cell {d v k : ℕ} (hd : 0 < d) : k * d ≤ v ∧ v < k * d + d ↔ v / d = k := by
  rw [Nat.div_eq_iff hd]
  omega

theorem brick_le {n k i : ℕ} (hi : i < k) : i * (n / k) + n / k ≤ n := by
  rw [← Nat.succ_mul]
  exact (Nat.mul_le_mul_right _ hi).trans (Nat.mul_div_le n k)

end Grid

section Bricks

variable {mpi : FileAccess} {config : VolumeConfig} {file : RawFile} {voxelSize : UInt64}
  {vol g : Vec3 ℕ} {rank : ℕ}

/-- The integer arithmetic of `load_volume_brick`. -/
theorem loadGridBrick_eq (hconfig : config.size = vol.ints) (hg : g.Positive)
    (hlt : g.volume < 2 ^ 31) (hvol : vol.x < 2 ^ 31 ∧ vol.y < 2 ^ 31 ∧ vol.z < 2 ^ 31)
    (hrank : rank < g.volume) (file : Option RawFile) :
    loadGridBrick mpi config file g.ints rank =
      voxelDType config.type >>= fun dtype =>
        loadRawVolume mpi config.volume file config.type vol.ints (brickDims vol g).ints
          (brickLower vol g (rankCell g rank)).ints >>= fun voxelData =>
            .ok ⟨(brickLower vol g (rankCell g rank)).ints, (brickUpper vol g (rankCell g rank)).ints,
              (brickDims vol g).ints, dtype, voxelData⟩ := by
  obtain ⟨hx, hy, hz⟩ := rankCell_lt hg hrank
  have hid : brickId g.ints rank = .ok (rankCell g rank).ints := by
    rw [rankCell_ints]
    exact brickId_eq hg hlt (by omega)
  generalize rankCell g rank = c at *
  have hx' : c.x * (vol.x / g.x) + vol.x / g.x < 2 ^ 31 := (brick_le hx).trans_lt hvol.1
  have hy' : c.y * (vol.y / g.y) + vol.y / g.y < 2 ^ 31 := (brick_le hy).trans_lt hvol.2.1
  have hz' : c.z * (vol.z / g.z) + vol.z / g.z < 2 ^ 31 := (brick_le hz).trans_lt hvol.2.2
  have hdims : vol.ints.divInts g.ints = .ok (brickDims vol g).ints := by
    obtain ⟨hvx, hvy, hvz⟩ := hvol
    obtain ⟨hgx, hgy, hgz⟩ := hg
    simp only [Vec3.divInts, Vec3.mapInts, Vec3.ints, intDiv_natCast hvx (by omega : g.x ≠ 0),
      intDiv_natCast hvy (by omega : g.y ≠ 0), intDiv_natCast hvz (by omega : g.z ≠ 0), ok_bind]
    rfl
  have hstart : c.ints.mulInts (brickDims vol g).ints = .ok (brickLower vol g c).ints := by
    simp only [Vec3.mulInts, Vec3.mapInts, Vec3.ints, brickDims, brickLower, ← Nat.cast_mul]
    rw [checkInt_natCast (Nat.lt_of_add_right_lt hx'), ok_bind,
      checkInt_natCast (Nat.lt_of_add_right_lt hy'), ok_bind,
      checkInt_natCast (Nat.lt_of_add_right_lt hz'), ok_bind]
    rfl
  have hend : (brickLower vol g c).ints.addInts (brickDims vol g).ints =
      .ok (brickUpper vol g c).ints := by
    simp only [Vec3.addInts, Vec3.mapInts, Vec3.ints, brickDims, brickLower, brickUpper,
      ← Nat.cast_add]
    rw [checkInt_natCast hx', ok_bind, checkInt_natCast hy', ok_bind, checkInt_natCast hz', ok_bind]
    rfl
  rw [loadGridBrick, hid, ofInts_ok, VolumeFault.ok_bind, hconfig, hdims, ofInts_ok,
    VolumeFault.ok_bind, hstart, ofInts_ok, VolumeFault.ok_bind, hend, ofInts_ok, VolumeFault.ok_bind]
  rfl

/-- `load_volume_brick` finds the grid of the ranks. -/
theorem loadVolumeBrick_eq {mpiSize : ℕ} (hpos : 1 ≤ mpiSize) (hlt : mpiSize < 2 ^ 31) {fuel : ℕ}
    (hfuel : mpiSize ≤ fuel) (file : Option RawFile) :
    loadVolumeBrick mpi fuel config file rank mpiSize =
      some (loadGridBrick mpi config file (gridOf mpiSize).ints rank) := by
  rw [loadVolumeBrick, computeGrid_eq hpos hlt hfuel]
  rfl

theorem voxelSizeOf_dtype {type : String} {dtype : DType} (h : voxelDType type = .ok dtype) :
    voxelSizeOf type = .ok (dtypeStride dtype) := by
  unfold voxelDType at h
  unfold voxelSizeOf
  split_ifs at h with huint8 hfloat hdouble
  · obtain rfl := Except.ok.inj h
    rw [if_pos huint8]
    rfl
  · obtain rfl := Except.ok.inj h
    subst hfloat
    rfl
  · obtain rfl := Except.ok.inj h
    subst hdouble
    rfl

theorem brickIn_rank {w : ℕ} (hg : g.Positive)
    (hvol : vol.x < 2 ^ 31 ∧ vol.y < 2 ^ 31 ∧ vol.z < 2 ^ 31)
    (hle : g.x ≤ vol.x ∧ g.y ≤ vol.y ∧ g.z ≤ vol.z) (hmemory : vol.volume * w < 2 ^ 64)
    (hrank : rank < g.volume) :
    BrickIn w vol (brickDims vol g) (brickLower vol g (rankCell g rank)) := by
  obtain ⟨hx, hy, hz⟩ := rankCell_lt hg hrank
  refine ⟨⟨Nat.div_pos hle.1 hg.x, Nat.div_pos hle.2.1 hg.y, Nat.div_pos hle.2.2 hg.z⟩, brick_le hx,
    brick_le hy, brick_le hz, hvol.1, hvol.2.1, hvol.2.2, ?_⟩
  have hvolume : (brickDims vol g).volume ≤ vol.volume :=
    Nat.mul_le_mul (Nat.mul_le_mul (Nat.div_le_self _ _) (Nat.div_le_self _ _))
      (Nat.div_le_self _ _)
  exact (Nat.mul_le_mul_right w hvolume).trans_lt hmemory

/-- What is known of the brick that a rank has loaded. -/
structure VolumeBrick.Of (brick : VolumeBrick) (mpi : FileAccess) (config : VolumeConfig)
    (file : RawFile) (vol g : Vec3 ℕ) (rank : ℕ) : Prop where
  lower_eq : brick.lower = (brickLower vol g (rankCell g rank)).ints
  upper_eq : brick.upper = (brickUpper vol g (rankCell g rank)).ints
  dims_eq : brick.dims = (brickDims vol g).ints
  dtype_eq : voxelDType config.type = .ok brick.dtype
  loaded : loadRawVolume mpi config.volume (some file) config.type vol.ints (brickDims vol g).ints
    (brickLower vol g (rankCell g rank)).ints = .ok brick.voxelData

variable {brick : VolumeBrick}

theorem loadGridBrick_iff (hconfig : config.size = vol.ints) (hg : g.Positive)
    (hlt : g.volume < 2 ^ 31) (hvol : vol.x < 2 ^ 31 ∧ vol.y < 2 ^ 31 ∧ vol.z < 2 ^ 31)
    (hrank : rank < g.volume) :
    loadGridBrick mpi config (some file) g.ints rank = .ok brick ↔
      brick.Of mpi config file vol g rank := by
  rw [loadGridBrick_eq hconfig hg hlt hvol hrank]
  cases hdtype : voxelDType config.type with
  | error e =>
      rw [VolumeFault.error_bind]
      exact ⟨fun h => absurd h (by simp), fun h => absurd (hdtype.symm.trans h.dtype_eq) (by simp)⟩
  | ok dtype =>
      rw [VolumeFault.ok_bind]
      constructor
      · intro h
        cases hdata : loadRawVolume mpi config.volume (some file) config.type vol.ints
            (brickDims vol g).ints (brickLower vol g (rankCell g rank)).ints with
        | error e =>
            rw [hdata, VolumeFault.error_bind] at h
            exact absurd h (by simp)
        | ok data =>
            rw [hdata, VolumeFault.ok_bind] at h
            obtain rfl := Except.ok.inj h
            exact ⟨rfl, rfl, rfl, hdtype, hdata⟩
      · rintro ⟨hlower, hupper, hdims, hdtype', hdata⟩
        obtain rfl := Except.ok.inj (hdtype.symm.trans hdtype')
        rw [hdata, VolumeFault.ok_bind, ← hlower, ← hupper, ← hdims]

theorem VolumeBrick.Of.has_cast (h : brick.Of mpi config file vol g rank) {v : Vec3 ℕ} :
    brick.Has v ↔
      ((brickLower vol g (rankCell g rank)).x ≤ v.x ∧
          v.x < (brickUpper vol g (rankCell g rank)).x) ∧
        ((brickLower vol g (rankCell g rank)).y ≤ v.y ∧
          v.y < (brickUpper vol g (rankCell g rank)).y) ∧
        ((brickLower vol g (rankCell g rank)).z ≤ v.z ∧
          v.z < (brickUpper vol g (rankCell g rank)).z) := by
  rw [VolumeBrick.Has, h.lower_eq, h.upper_eq]
  simp only [Vec3.ints, Nat.cast_le, Nat.cast_lt]

/-- The voxels of the brick of a rank are those of its cell. -/
theorem VolumeBrick.Of.has_iff (h : brick.Of mpi config file vol g rank)
    (hd : (brickDims vol g).Positive) {v : Vec3 ℕ} :
    brick.Has v ↔
      rankCell g rank = ⟨v.x / (vol.x / g.x), v.y / (vol.y / g.y), v.z / (vol.z / g.z)⟩ := by
  have hcast := h.has_cast (v := v)
  simp only [brickLower, brickUpper] at hcast
  obtain ⟨hx, hy, hz⟩ := hd
  simp only [brickDims] at hx hy hz
  rw [hcast, div_eq_cell hx, div_eq_cell hy, div_eq_cell hz]
  generalize rankCell g rank = c
  constructor
  · rintro ⟨hx, hy, hz⟩
    rw [hx, hy, hz]
  · rintro rfl
    exact ⟨rfl, rfl, rfl⟩

theorem VolumeBrick.Of.voxelAt_eq (hmpi : mpi.Documented)
    (h : brick.Of mpi config file vol g rank)
    (hdtype : voxelSizeOf config.type = .ok voxelSize)
    (hbrick : BrickIn voxelSize.toNat vol (brickDims vol g) (brickLower vol g (rankCell g rank)))
    (hfile : vol.volume * voxelSize.toNat ≤ file.bytes.length)
    (hsucceeds : ∀ i, file.succeeds i = true) {v : Vec3 ℕ} (hv : brick.Has v) :
    brick.voxelAt voxelSize.toNat v =
      if v.z - brick.lower.z.toNat < layersRead voxelSize.toNat (brickDims vol g) then
        file.voxel voxelSize.toNat (cell vol.x vol.y v.x v.y v.z)
      else zeros voxelSize.toNat := by
  obtain ⟨⟨hx, hx'⟩, ⟨hy, hy'⟩, hz, hz'⟩ := h.has_cast.1 hv
  have hvoxels := (loadRawVolume_voxels hmpi hdtype hbrick hfile hsucceeds h.loaded).2
  simp only [VolumeBrick.voxelAt, h.lower_eq, h.dims_eq, Vec3.ints, Int.toNat_natCast]
  generalize hlower : brickLower vol g (rankCell g rank) = lower at *
  have hend : brickUpper vol g (rankCell g rank) = ⟨lower.x + (brickDims vol g).x,
      lower.y + (brickDims vol g).y, lower.z + (brickDims vol g).z⟩ := by
    rw [← hlower]
    rfl
  rw [hend] at hx' hy' hz'
  simp only at hx' hy' hz'
  rw [hvoxels (v.x - lower.x) (v.y - lower.y) (v.z - lower.z) (by omega) (by omega) (by omega),
    Nat.add_sub_cancel' hx, Nat.add_sub_cancel' hy, Nat.add_sub_cancel' hz]

theorem VolumeBrick.Of.field_bytes (hmpi : mpi.Documented)
    (h : brick.Of mpi config file vol g rank)
    (hbrick : BrickIn (dtypeStride brick.dtype).toNat vol (brickDims vol g)
      (brickLower vol g (rankCell g rank)))
    (hfile : vol.volume * (dtypeStride brick.dtype).toNat ≤ file.bytes.length)
    (hsucceeds : ∀ i, file.succeeds i = true) (fieldName : StdString) (data : UInt64) :
    (brick.field fieldName data).array =
      some (.borrowed (dtypeStride brick.dtype) data (UInt64.ofNat brick.voxelData.length)) := by
  obtain ⟨hx, hy, hz⟩ := hbrick.dims_lt
  have hlength :=
    (loadRawVolume_voxels hmpi (voxelSizeOf_dtype h.dtype_eq) hbrick hfile hsucceeds h.loaded).1
  have hbytes : (sizeOfInt brick.dims.x * sizeOfInt brick.dims.y * sizeOfInt brick.dims.z *
      dtypeStride brick.dtype).toNat = brick.voxelData.length := by
    rw [hlength, h.dims_eq]
    simp only [Vec3.ints]
    rw [UInt64.toNat_mul, UInt64.toNat_mul, sizeOfInt_mul hx hy, sizeOfInt_toNat (by omega),
      Nat.mod_mul_mod]
    exact Nat.mod_eq_of_lt hbrick.memory
  rw [← hbytes, UInt64.ofNat_toNat]
  rfl

end Bricks

/-- The bricks of the ranks decompose the part of a volume that its grid divides evenly, and hold the
    voxels of a file. -/
structure Decompose (bricks : ℕ → VolumeBrick) (file : RawFile) (vol g : Vec3 ℕ)
    (voxelSize : ℕ) : Prop where
  disjoint : ∀ rank, rank < g.volume → ∀ rank', rank' < g.volume → ∀ v,
    (bricks rank).Has v → (bricks rank').Has v → rank = rank'
  covered : ∀ v : Vec3 ℕ, (∃ rank, rank < g.volume ∧ (bricks rank).Has v) ↔
    v.x < g.x * (vol.x / g.x) ∧ v.y < g.y * (vol.y / g.y) ∧ v.z < g.z * (vol.z / g.z)
  whole : (∀ v : Vec3 ℕ, v.x < vol.x → v.y < vol.y → v.z < vol.z →
      ∃ rank, rank < g.volume ∧ (bricks rank).Has v) ↔
    g.x ∣ vol.x ∧ g.y ∣ vol.y ∧ g.z ∣ vol.z
  voxels : ∀ rank, rank < g.volume → ∀ v, (bricks rank).Has v →
    (bricks rank).voxelAt voxelSize v =
      if v.z - (bricks rank).lower.z.toNat < layersRead voxelSize (brickDims vol g) then
        file.voxel voxelSize (cell vol.x vol.y v.x v.y v.z)
      else zeros voxelSize
  fields : ∀ rank, rank < g.volume → ∀ fieldName data,
    ((bricks rank).field fieldName data).array =
      some (.borrowed (dtypeStride (bricks rank).dtype) data
        (UInt64.ofNat (bricks rank).voxelData.length))

section Decomposition

variable {mpi : FileAccess} {config : VolumeConfig} {file : RawFile} {dtype : DType}
  {vol g : Vec3 ℕ} {bricks : ℕ → VolumeBrick}

theorem dvd_of_last {n k : ℕ} (hn : 0 < n) (h : n - 1 < k * (n / k)) : k ∣ n := by
  have hle := Nat.mul_div_le n k
  exact ⟨n / k, by omega⟩

/-- What the bricks cover is the whole volume when the grid divides it. -/
theorem covers_whole {P : Vec3 ℕ → Prop} (hx : 0 < vol.x) (hy : 0 < vol.y) (hz : 0 < vol.z)
    (h : ∀ v : Vec3 ℕ, P v ↔
      v.x < g.x * (vol.x / g.x) ∧ v.y < g.y * (vol.y / g.y) ∧ v.z < g.z * (vol.z / g.z)) :
    (∀ v : Vec3 ℕ, v.x < vol.x → v.y < vol.y → v.z < vol.z → P v) ↔
      g.x ∣ vol.x ∧ g.y ∣ vol.y ∧ g.z ∣ vol.z := by
  constructor
  · intro hall
    obtain ⟨hx', hy', hz'⟩ := (h _).1 (hall ⟨vol.x - 1, vol.y - 1, vol.z - 1⟩
      (Nat.sub_lt hx Nat.one_pos) (Nat.sub_lt hy Nat.one_pos) (Nat.sub_lt hz Nat.one_pos))
    exact ⟨dvd_of_last hx hx', dvd_of_last hy hy', dvd_of_last hz hz'⟩
  · rintro ⟨hx', hy', hz'⟩ v hvx hvy hvz
    rw [h, Nat.mul_div_cancel' hx', Nat.mul_div_cancel' hy', Nat.mul_div_cancel' hz']
    exact ⟨hvx, hvy, hvz⟩

theorem decompose_of_loaded (hmpi : mpi.Documented) (hdtype : voxelDType config.type = .ok dtype)
    (hg : g.Positive) (hle : g.x ≤ vol.x ∧ g.y ≤ vol.y ∧ g.z ≤ vol.z)
    (hbrick : ∀ rank, rank < g.volume → BrickIn (dtypeStride dtype).toNat vol (brickDims vol g)
      (brickLower vol g (rankCell g rank)))
    (hfile : vol.volume * (dtypeStride dtype).toNat ≤ file.bytes.length)
    (hsucceeds : ∀ i, file.succeeds i = true)
    (h : ∀ rank, rank < g.volume → (bricks rank).Of mpi config file vol g rank) :
    Decompose bricks file vol g (dtypeStride dtype).toNat := by
  have hx : 0 < vol.x / g.x := Nat.div_pos hle.1 hg.x
  have hy : 0 < vol.y / g.y := Nat.div_pos hle.2.1 hg.y
  have hz : 0 < vol.z / g.z := Nat.div_pos hle.2.2 hg.z
  have hd : (brickDims vol g).Positive := ⟨hx, hy, hz⟩
  have hcovered : ∀ v : Vec3 ℕ, (∃ rank, rank < g.volume ∧ (bricks rank).Has v) ↔
      v.x < g.x * (vol.x / g.x) ∧ v.y < g.y * (vol.y / g.y) ∧ v.z < g.z * (vol.z / g.z) := by
    intro v
    rw [← Nat.div_lt_iff_lt_mul hx, ← Nat.div_lt_iff_lt_mul hy, ← Nat.div_lt_iff_lt_mul hz]
    constructor
    · rintro ⟨rank, hrank, hv⟩
      have hcell := rankCell_lt hg hrank
      rwa [((h rank hrank).has_iff hd).1 hv] at hcell
    · rintro ⟨hx, hy, hz⟩
      obtain ⟨rank, ⟨hrank, hcell⟩, -⟩ := rankCell_existsUnique
        (c := ⟨v.x / (vol.x / g.x), v.y / (vol.y / g.y), v.z / (vol.z / g.z)⟩) hg hx hy hz
      exact ⟨rank, hrank, ((h rank hrank).has_iff hd).2 hcell⟩
  refine ⟨?_, hcovered, ?_, ?_, ?_⟩
  · intro rank hrank rank' hrank' v hv hv'
    have hcell := ((h rank hrank).has_iff hd).1 hv
    have hcell' := ((h rank' hrank').has_iff hd).1 hv'
    obtain ⟨hx, hy, hz⟩ := rankCell_lt hg hrank
    exact (rankCell_existsUnique hg hx hy hz).unique ⟨hrank, rfl⟩
      ⟨hrank', hcell'.trans hcell.symm⟩
  · exact covers_whole (hg.x.trans hle.1) (hg.y.trans hle.2.1) (hg.z.trans hle.2.2) hcovered
  · intro rank hrank v hv
    exact (h rank hrank).voxelAt_eq hmpi (voxelSizeOf_dtype hdtype) (hbrick rank hrank) hfile
      hsucceeds hv
  · intro rank hrank fieldName data
    have hsame : (bricks rank).dtype = dtype :=
      Except.ok.inj ((h rank hrank).dtype_eq.symm.trans hdtype)
    exact (h rank hrank).field_bytes hmpi (hsame ▸ hbrick rank hrank) (hsame ▸ hfile) hsucceeds
      fieldName data

/-- A rank loads its brick just when it has a voxel and its layers fit into a read. -/
theorem exists_of_iff {rank : ℕ} (hmpi : mpi.Documented)
    (hdtype : voxelDType config.type = .ok dtype) (hg : g.Positive)
    (hvol : vol.x < 2 ^ 31 ∧ vol.y < 2 ^ 31 ∧ vol.z < 2 ^ 31)
    (hmemory : vol.volume * (dtypeStride dtype).toNat < 2 ^ 64) (hrank : rank < g.volume)
    (hfile : vol.volume * (dtypeStride dtype).toNat ≤ file.bytes.length)
    (hsucceeds : ∀ i, file.succeeds i = true) :
    (∃ brick : VolumeBrick, brick.Of mpi config file vol g rank) ↔
      (g.x ≤ vol.x ∧ g.y ≤ vol.y ∧ g.z ≤ vol.z) ∧
        vol.y / g.y * (vol.x / g.x) * (dtypeStride dtype).toNat ≤ 2147483647 := by
  have hsize := voxelSizeOf_dtype hdtype
  constructor
  · rintro ⟨brick, hbrick⟩
    have hdata := hbrick.loaded
    have hle : g.x ≤ vol.x ∧ g.y ≤ vol.y ∧ g.z ≤ vol.z := by
      by_contra hsmall
      have hnone : (brickDims vol g).x = 0 ∨ (brickDims vol g).y = 0 ∨ (brickDims vol g).z = 0 := by
        simp only [brickDims, Nat.div_eq_zero_iff]
        omega
      rw [loadRawVolume_empty hsize hnone] at hdata
      exact absurd hdata (by simp)
    have hin := brickIn_rank hg hvol hle hmemory hrank
    exact ⟨hle, (loadRawVolume_iff hmpi hsize hin hfile hsucceeds).1 ⟨_, hdata⟩⟩
  · rintro ⟨hle, hlayer⟩
    have hin := brickIn_rank hg hvol hle hmemory hrank
    obtain ⟨data, hdata⟩ : ∃ data, loadRawVolume mpi config.volume (some file) config.type vol.ints
        (brickDims vol g).ints (brickLower vol g (rankCell g rank)).ints = .ok data :=
      (loadRawVolume_iff hmpi hsize hin hfile hsucceeds).2 hlayer
    exact ⟨⟨_, _, _, dtype, data⟩, rfl, rfl, rfl, hdtype, hdata⟩

theorem loadVolumeBrick_iff {mpiSize rank : ℕ} {brick : VolumeBrick}
    (hconfig : config.size = vol.ints) (hvol : vol.x < 2 ^ 31 ∧ vol.y < 2 ^ 31 ∧ vol.z < 2 ^ 31)
    (hpos : 1 ≤ mpiSize) (hlt : mpiSize < 2 ^ 31) (hrank : rank < mpiSize) :
    (∀ fuel, mpiSize ≤ fuel →
        loadVolumeBrick mpi fuel config (some file) rank mpiSize = some (.ok brick)) ↔
      brick.Of mpi config file vol (gridOf mpiSize) rank := by
  have hvolume := volume_gridOf hpos
  rw [← loadGridBrick_iff hconfig (positive_gridOf hpos) (by omega) hvol (by omega)]
  constructor
  · intro h
    have hok := h mpiSize (le_refl _)
    rw [loadVolumeBrick_eq hpos hlt (le_refl _)] at hok
    exact Option.some.inj hok
  · intro h fuel hfuel
    rw [loadVolumeBrick_eq hpos hlt hfuel, h]

/-- **The bricks of a volume.** All ranks load their bricks just when there are at least as many
    voxels as ranks along every axis and a layer of a brick fits into a read. Then no voxel is in
    two bricks; what is in none is what the division by the grid leaves over. A brick has the voxels
    of the file in the layers that are read and zero behind them, and the field that is set for it
    has as many bytes as it. -/
theorem volume_bricks (mpi : FileAccess) (hmpi : mpi.Documented) (config : VolumeConfig)
    (file : RawFile) (dtype : DType) (vol : Vec3 ℕ) (mpiSize : ℕ) (hconfig : config.size = vol.ints)
    (hvol : vol.x < 2 ^ 31 ∧ vol.y < 2 ^ 31 ∧ vol.z < 2 ^ 31)
    (hdtype : voxelDType config.type = .ok dtype) (hpos : 1 ≤ mpiSize) (hlt : mpiSize < 2 ^ 31)
    (hfile : vol.volume * (dtypeStride dtype).toNat ≤ file.bytes.length)
    (hsize : file.bytes.length < 2 ^ 63) (hsucceeds : ∀ i, file.succeeds i = true) :
    (gridOf mpiSize).volume = mpiSize ∧
      ((∀ rank, rank < mpiSize → ∃ brick, ∀ fuel, mpiSize ≤ fuel →
          loadVolumeBrick mpi fuel config (some file) rank mpiSize = some (.ok brick)) ↔
        ((gridOf mpiSize).x ≤ vol.x ∧ (gridOf mpiSize).y ≤ vol.y ∧ (gridOf mpiSize).z ≤ vol.z) ∧
          vol.y / (gridOf mpiSize).y * (vol.x / (gridOf mpiSize).x) * (dtypeStride dtype).toNat ≤
            2147483647) ∧
      ∀ bricks : ℕ → VolumeBrick,
        (∀ rank, rank < mpiSize → ∀ fuel, mpiSize ≤ fuel →
          loadVolumeBrick mpi fuel config (some file) rank mpiSize = some (.ok (bricks rank))) →
        Decompose bricks file vol (gridOf mpiSize) (dtypeStride dtype).toNat := by
  have hvolume := volume_gridOf hpos
  have hg := positive_gridOf hpos
  have hmemory : vol.volume * (dtypeStride dtype).toNat < 2 ^ 64 := by omega
  have hone : ∀ rank, rank < mpiSize → ((∃ brick, ∀ fuel, mpiSize ≤ fuel →
      loadVolumeBrick mpi fuel config (some file) rank mpiSize = some (.ok brick)) ↔
        ((gridOf mpiSize).x ≤ vol.x ∧ (gridOf mpiSize).y ≤ vol.y ∧ (gridOf mpiSize).z ≤ vol.z) ∧
          vol.y / (gridOf mpiSize).y * (vol.x / (gridOf mpiSize).x) * (dtypeStride dtype).toNat ≤
            2147483647) := by
    intro rank hrank
    simp only [loadVolumeBrick_iff hconfig hvol hpos hlt hrank]
    exact exists_of_iff hmpi hdtype hg hvol hmemory (by omega) hfile hsucceeds
  refine ⟨hvolume, ⟨fun hall => (hone 0 hpos).1 (hall 0 hpos),
    fun hfits rank hrank => (hone rank hrank).2 hfits⟩, ?_⟩
  intro bricks hall
  have hof : ∀ rank, rank < (gridOf mpiSize).volume →
      (bricks rank).Of mpi config file vol (gridOf mpiSize) rank := by
    intro rank hrank
    have hrank' : rank < mpiSize := by omega
    exact (loadVolumeBrick_iff hconfig hvol hpos hlt hrank').1 (hall rank hrank')
  have hle := ((hone 0 hpos).1 ⟨_, hall 0 hpos⟩).1
  exact decompose_of_loaded hmpi hdtype hg hle
    (fun rank hrank => brickIn_rank hg hvol hle hmemory hrank) hfile hsucceeds hof

/-- A volume of two voxels along each axis. -/
def cubeConfig : VolumeConfig :=
  ⟨"cube.raw", ⟨2, 2, 2⟩, "uint8"⟩

/-- Its voxels are 1 to 8. -/
def cubeFile : RawFile :=
  ⟨[1, 2, 3, 4, 5, 6, 7, 8], fun _ => true⟩

theorem gridOf_two : gridOf 2 = ⟨2, 1, 1⟩ := by
  rw [gridOf, Vec3.dealt_prime (by decide) Nat.prime_two]
  rfl

/-- Two ranks load the volume, and one of them has its sixth voxel. -/
theorem volume_bricks_two : ∃ bricks : ℕ → VolumeBrick,
    (∀ rank : ℕ, rank < 2 → ∀ fuel, 2 ≤ fuel →
      loadVolumeBrick .plain fuel cubeConfig (some cubeFile) rank (2 : ℕ) =
        some (.ok (bricks rank))) ∧
      ∃ rank, rank < 2 ∧ (bricks rank).Has ⟨1, 0, 1⟩ ∧
        (bricks rank).voxelAt 1 ⟨1, 0, 1⟩ = [6] := by
  obtain ⟨-, hloads, hbricks⟩ := volume_bricks .plain FileAccess.documented_plain cubeConfig cubeFile
    .uint8 ⟨2, 2, 2⟩ 2 rfl (by decide) rfl (by decide) (by decide) (by decide) (by decide)
    (fun _ => rfl)
  rw [gridOf_two] at hloads hbricks
  have hall := hloads.2 (by decide)
  have hsome : Nonempty VolumeBrick := ⟨(hall 0 (by decide)).choose⟩
  choose! bricks hall using hall
  have hdecompose := hbricks bricks hall
  obtain ⟨rank, hrank, hhas⟩ := (hdecompose.covered ⟨1, 0, 1⟩).2 (by decide)
  refine ⟨bricks, hall, rank, hrank, hhas, ?_⟩
  have hvoxel := hdecompose.voxels rank hrank ⟨1, 0, 1⟩ hhas
  have hlayers : layersRead 1 (brickDims ⟨2, 2, 2⟩ ⟨2, 1, 1⟩) = 2 := by decide
  have hread : 1 - (bricks rank).lower.z.toNat < layersRead 1 (brickDims ⟨2, 2, 2⟩ ⟨2, 1, 1⟩) := by
    omega
  exact hvoxel.trans (if_pos hread)

end Decomposition

end LibIS
