import LibIS.Examples.VolumeBricks
import LibIS.InterComm.Delivery

set_option autoImplicit false

/-! # The volume at the clients (`volume_example_sim.cpp`)

Every rank of the volume example shows its brick as one field, in each time step the same. Whatever
the connections do, the clients end up with regions from which the volume can be put together, as
far as the ranks have read it. -/

open ByteCodec Tables Receive

namespace LibIS

theorem fieldOne_lt : ([102, 105, 101, 108, 100, 95, 111, 110, 101] : Bytes).length < 2 ^ 62 := by
  decide

/-- The name `field_one`. -/
def fieldOne : StdString :=
  ⟨[102, 105, 101, 108, 100, 95, 111, 110, 101], fieldOne_lt⟩

/-- The calls of setters in the volume example. -/
def VolumeBrick.calls (brick : VolumeBrick) (worldBounds localBounds : Box3 FloatBits)
    (data : UInt64) : List SetCall :=
  [.worldBounds worldBounds, .localBounds localBounds, .ghostBounds localBounds,
    .field fieldOne brick.fieldDims brick.dtype data]

/-- What a rank passes to `libISProcess` for its brick, which lies in its memory. -/
structure VolumeBrick.ShownBy (brick : VolumeBrick) {simRank : Int32} (q : Snapshot simRank) :
    Prop where
  shown : ∃ worldBounds localBounds data,
    q.calls = brick.calls worldBounds localBounds data ∧
      ∀ i b, brick.voxelData[i]? = some b → q.mem (data + UInt64.ofNat i) = b

/-- The bytes that a region has for a voxel, by where the brick starts. -/
def fieldVoxel (region : SimState) (voxelSize : ℕ) (lower v : Vec3 ℕ) : Option Bytes :=
  match region.buffers.lookup fieldOne with
  | some ⟨_, _, dims, some (.owned _ bytes)⟩ =>
      some ((bytes.drop (cell dims.head.toNat dims.tail.head.toNat (v.x - lower.x) (v.y - lower.y)
        (v.z - lower.z) * voxelSize)).take voxelSize)
  | _ => none

section Delivered

variable {mpi : FileAccess} {config : VolumeConfig} {file : RawFile} {dtype : DType}
  {vol g : Vec3 ℕ} {rank : ℕ} {brick : VolumeBrick} {simRank : Int32} {q : Snapshot simRank}

theorem borrowed_bytes {mem : Memory} {stride data : UInt64} {bs : Bytes}
    (h : ∀ i b, bs[i]? = some b → mem (data + UInt64.ofNat i) = b) (hlt : bs.length < 2 ^ 64) :
    (DataArray.borrowed stride data (UInt64.ofNat bs.length)).bytes mem = bs := by
  have hlen : (UInt64.ofNat bs.length).toNat = bs.length := by
    rw [UInt64.toNat_ofNat', Nat.mod_eq_of_lt hlt]
  rw [DataArray.bytes, hlen]
  refine List.ext_getElem (by rw [List.length_map, List.length_range]) (fun i hi hi' => ?_)
  rw [List.getElem_map, List.getElem_range]
  exact h i bs[i] (List.getElem?_eq_getElem hi')

/-- The field of the region that a client gets from a rank. -/
theorem VolumeBrick.Of.region_field (hmpi : mpi.Documented)
    (h : brick.Of mpi config file vol g rank)
    (hbrick : BrickIn (dtypeStride brick.dtype).toNat vol (brickDims vol g)
      (brickLower vol g (rankCell g rank)))
    (hfile : vol.volume * (dtypeStride brick.dtype).toNat ≤ file.bytes.length)
    (hsucceeds : ∀ i, file.succeeds i = true) (hshown : brick.ShownBy q) :
    q.region.buffers.lookup fieldOne = some ⟨fieldOne, brick.dtype, brick.fieldDims,
      some (.owned (dtypeStride brick.dtype) brick.voxelData)⟩ := by
  obtain ⟨worldBounds, localBounds, data, hcalls, hmem⟩ := hshown.shown
  have hlength :=
    (loadRawVolume_voxels hmpi (voxelSizeOf_dtype h.dtype_eq) hbrick hfile hsucceeds h.loaded).1
  have hlast : SetCall.lastSome (SetCall.buffer? fieldOne) q.calls =
      some (brick.field fieldOne data) := by
    rw [hcalls]
    simp [SetCall.lastSome, VolumeBrick.calls, SetCall.buffer?, VolumeBrick.field]
  rw [q.region_lookup, hlast, Option.map_some, Buffer.received,
    h.field_bytes hmpi hbrick hfile hsucceeds, Option.map_some, DataArray.received,
    borrowed_bytes hmem (hlength ▸ hbrick.memory)]
  rfl

/-- What the region of a rank has for the voxels of its brick. -/
theorem VolumeBrick.Of.region_voxel (hmpi : mpi.Documented)
    (h : brick.Of mpi config file vol g rank)
    (hbrick : BrickIn (dtypeStride brick.dtype).toNat vol (brickDims vol g)
      (brickLower vol g (rankCell g rank)))
    (hfile : vol.volume * (dtypeStride brick.dtype).toNat ≤ file.bytes.length)
    (hsucceeds : ∀ i, file.succeeds i = true) (hshown : brick.ShownBy q) {v : Vec3 ℕ}
    (hv : brick.Has v) :
    fieldVoxel q.region (dtypeStride brick.dtype).toNat (brickLower vol g (rankCell g rank)) v =
      some (if v.z - brick.lower.z.toNat < layersRead (dtypeStride brick.dtype).toNat
          (brickDims vol g) then
        file.voxel (dtypeStride brick.dtype).toNat (cell vol.x vol.y v.x v.y v.z)
      else zeros (dtypeStride brick.dtype).toNat) := by
  obtain ⟨hx, hy, -⟩ := hbrick.dims_lt
  rw [← h.voxelAt_eq hmpi (voxelSizeOf_dtype h.dtype_eq) hbrick hfile hsucceeds hv, fieldVoxel,
    h.region_field hmpi hbrick hfile hsucceeds hshown]
  have hfirst : (sizeOfInt brick.dims.x).toNat = brick.dims.x.toNat := by
    rw [h.dims_eq]
    exact sizeOfInt_toNat (by omega)
  have hsecond : (sizeOfInt brick.dims.y).toNat = brick.dims.y.toNat := by
    rw [h.dims_eq]
    exact sizeOfInt_toNat (by omega)
  have hlower : brickLower vol g (rankCell g rank) =
      ⟨brick.lower.x.toNat, brick.lower.y.toNat, brick.lower.z.toNat⟩ := by
    rw [h.lower_eq]
    rfl
  rw [hlower, VolumeBrick.voxelAt, ← hfirst, ← hsecond]
  rfl

/-- **The volume at the clients.** MPI reads what it documents, and no read fails; the ranks answer
    any number of queries with their bricks, each over a connection of its own. Every voxel that the
    grid does not leave over is in the brick of one rank; and whoever receives from this rank comes
    to an end, whatever the connection does, with a region for each query that has the voxel as it
    is in the file, if its layer has been read. -/
theorem volume_delivered (mpi : FileAccess) (hmpi : mpi.Documented) (config : VolumeConfig)
    (file : RawFile) (dtype : DType) (vol : Vec3 ℕ) (mpiSize : ℕ) (hconfig : config.size = vol.ints)
    (hvol : vol.x < 2 ^ 31 ∧ vol.y < 2 ^ 31 ∧ vol.z < 2 ^ 31)
    (hdtype : voxelDType config.type = .ok dtype) (hpos : 1 ≤ mpiSize) (hlt : mpiSize < 2 ^ 31)
    (hfile : vol.volume * (dtypeStride dtype).toNat ≤ file.bytes.length)
    (hsize : file.bytes.length < 2 ^ 63) (hsucceeds : ∀ i, file.succeeds i = true)
    (bricks : ℕ → VolumeBrick)
    (hbricks : ∀ rank, rank < mpiSize → ∀ fuel, mpiSize ≤ fuel →
      loadVolumeBrick mpi fuel config (some file) rank mpiSize = some (.ok (bricks rank)))
    (qs : (rank : ℕ) → List (Snapshot (Int32.ofNat rank)))
    (hshown : ∀ rank, rank < mpiSize → ∀ q ∈ qs rank, (bricks rank).ShownBy q) (v : Vec3 ℕ)
    (hv : v.x < (gridOf mpiSize).x * (vol.x / (gridOf mpiSize).x) ∧
      v.y < (gridOf mpiSize).y * (vol.y / (gridOf mpiSize).y) ∧
      v.z < (gridOf mpiSize).z * (vol.z / (gridOf mpiSize).z)) :
    ∃! rank, (rank < mpiSize ∧ (bricks rank).Has v) ∧
      (∀ d, Delivery.Reaches (.start ((qs rank).flatMap Snapshot.spans)
          (recvRegions (qs rank).length)) d → (∀ d', ¬ Delivery.Step d d') →
        ∃ regions, d.reader = ⟨.ret regions, none⟩ ∧ regions.length = (qs rank).length ∧
          ∀ region ∈ regions,
            fieldVoxel region (dtypeStride dtype).toNat
                (brickLower vol (gridOf mpiSize) (rankCell (gridOf mpiSize) rank)) v =
              some (if v.z - (bricks rank).lower.z.toNat <
                  layersRead (dtypeStride dtype).toNat (brickDims vol (gridOf mpiSize)) then
                file.voxel (dtypeStride dtype).toNat (cell vol.x vol.y v.x v.y v.z)
              else zeros (dtypeStride dtype).toNat)) ∧
      ¬ ∃ run : ℕ → Delivery (List SimState),
        run 0 = .start ((qs rank).flatMap Snapshot.spans) (recvRegions (qs rank).length) ∧
          ∀ n, Delivery.Step (run n) (run (n + 1)) := by
  have hvolume := volume_gridOf hpos
  have hg := positive_gridOf hpos
  have hmemory : vol.volume * (dtypeStride dtype).toNat < 2 ^ 64 := by omega
  -- what each rank has loaded is the brick of its cell
  have hof : ∀ rank, rank < (gridOf mpiSize).volume →
      (bricks rank).Of mpi config file vol (gridOf mpiSize) rank := by
    intro rank hrank
    have hrank' : rank < mpiSize := by omega
    exact (loadVolumeBrick_iff hconfig hvol hpos hlt hrank').1 (hbricks rank hrank')
  have hle := ((exists_of_iff hmpi hdtype hg hvol hmemory (by omega) hfile hsucceeds).1
    ⟨_, hof 0 (by omega)⟩).1
  have hin : ∀ rank, rank < (gridOf mpiSize).volume → BrickIn (dtypeStride dtype).toNat vol
      (brickDims vol (gridOf mpiSize))
      (brickLower vol (gridOf mpiSize) (rankCell (gridOf mpiSize) rank)) :=
    fun rank hrank => brickIn_rank hg hvol hle hmemory hrank
  have hdecompose := decompose_of_loaded hmpi hdtype hg hle hin hfile hsucceeds hof
  rw [hvolume] at hof
  -- the voxel is of the brick of some rank
  obtain ⟨rank, hrank, hhas⟩ := (hdecompose.covered v).2 hv
  rw [hvolume] at hrank
  have hreads : Reads (recvRegions (qs rank).length)
      (((qs rank).flatMap Snapshot.spans).map Span.bytes) ((qs rank).map Snapshot.region) := by
    rw [spans_bytes]
    exact reads_recvRegions (qs rank)
  refine ⟨rank, ⟨⟨hrank, hhas⟩, fun d hd hstuck => ?_, Delivery.no_infinite_run hreads⟩, ?_⟩
  · have hsame : (bricks rank).dtype = dtype :=
      Except.ok.inj ((hof rank hrank).dtype_eq.symm.trans hdtype)
    obtain ⟨c, hfollows⟩ := Delivery.Follows.of_reaches hreads hd
    refine ⟨_, (hfollows.done hstuck).1, List.length_map _, fun region hregion => ?_⟩
    obtain ⟨q, hq, rfl⟩ := List.mem_map.1 hregion
    have hbrick := hin rank (by omega)
    subst hsame
    exact (hof rank hrank).region_voxel hmpi hbrick hfile hsucceeds (hshown rank hrank q hq) hhas
  · rintro rank' ⟨⟨hrank', hhas'⟩, -⟩
    exact hdecompose.disjoint rank' (by omega) rank (by omega) v hhas' hhas

/-- The memory of a rank that has nothing but its brick. -/
def VolumeBrick.memory (brick : VolumeBrick) : Memory :=
  fun p => brick.voxelData.getD p.toNat 0

theorem VolumeBrick.entries_lt (brick : VolumeBrick) (simRank : Int32) :
    (buildState simRank (brick.calls libISMakeBox3f libISMakeBox3f 0)).buffers.entries.length <
      2 ^ 64 := by
  have hone : (buildState simRank
      (brick.calls libISMakeBox3f libISMakeBox3f 0)).buffers.entries.length = 1 := rfl
  rw [hone]
  decide

/-- A state with a brick at the start of memory, and empty bounds. -/
def VolumeBrick.snapshot (brick : VolumeBrick) (simRank : Int32) : Snapshot simRank where
  calls := brick.calls libISMakeBox3f libISMakeBox3f 0
  mem := brick.memory
  order := (buildState simRank (brick.calls libISMakeBox3f libISMakeBox3f 0)).buffers.entries
  iterates := List.Perm.refl _
  size_lt := brick.entries_lt simRank

theorem VolumeBrick.shownBy_snapshot {brick : VolumeBrick} (h : brick.voxelData.length < 2 ^ 64)
    (simRank : Int32) : brick.ShownBy (brick.snapshot simRank) := by
  refine ⟨_, _, 0, rfl, fun i b hb => ?_⟩
  have hi : i < brick.voxelData.length := (List.getElem?_eq_some_iff.1 hb).1
  have hplace : (0 + UInt64.ofNat i).toNat = i := by
    rw [UInt64.zero_add, UInt64.toNat_ofNat', Nat.mod_eq_of_lt (hi.trans h)]
  show brick.voxelData.getD (0 + UInt64.ofNat i).toNat 0 = b
  rw [hplace, List.getD_eq_getElem?_getD, hb, Option.getD_some]

/-- Two ranks show their halves of a small volume, and the sixth voxel arrives. -/
theorem volume_delivered_two : ∃ bricks : ℕ → VolumeBrick,
    ∃ rank, (rank < 2 ∧ (bricks rank).Has ⟨1, 0, 1⟩) ∧
      (∀ d, Delivery.Reaches
          (.start ([(bricks rank).snapshot (Int32.ofNat rank)].flatMap Snapshot.spans)
            (recvRegions 1)) d → (∀ d', ¬ Delivery.Step d d') →
        ∃ regions, d.reader = ⟨.ret regions, none⟩ ∧ regions.length = 1 ∧
          ∀ region ∈ regions, fieldVoxel region 1
            (brickLower ⟨2, 2, 2⟩ (gridOf 2) (rankCell (gridOf 2) rank)) ⟨1, 0, 1⟩ = some [6]) ∧
      ¬ ∃ run : ℕ → Delivery (List SimState),
        run 0 = .start ([(bricks rank).snapshot (Int32.ofNat rank)].flatMap Snapshot.spans)
          (recvRegions 1) ∧ ∀ n, Delivery.Step (run n) (run (n + 1)) := by
  have hpos : 1 ≤ 2 := by decide
  have hg := positive_gridOf hpos
  have hvolume := volume_gridOf hpos
  have hle : (gridOf 2).x ≤ 2 ∧ (gridOf 2).y ≤ 2 ∧ (gridOf 2).z ≤ 2 := by
    rw [gridOf_two]
    decide
  have hsucceeds : ∀ i, cubeFile.succeeds i = true := fun _ => rfl
  have hof : ∀ rank, rank < 2 → ∃ brick : VolumeBrick,
      brick.Of .plain cubeConfig cubeFile ⟨2, 2, 2⟩ (gridOf 2) rank := by
    intro rank hrank
    refine (exists_of_iff FileAccess.documented_plain rfl hg (by decide) (by decide)
      (by rwa [hvolume]) (by decide) hsucceeds).2 ⟨hle, ?_⟩
    rw [gridOf_two]
    decide
  have hsome : Nonempty VolumeBrick := ⟨(hof 0 (by decide)).choose⟩
  choose! bricks hbrick using hof
  have hlength : ∀ rank, rank < 2 → (bricks rank).voxelData.length < 2 ^ 64 := by
    intro rank hrank
    have hin : BrickIn (1 : UInt64).toNat ⟨2, 2, 2⟩ (brickDims ⟨2, 2, 2⟩ (gridOf 2))
        (brickLower ⟨2, 2, 2⟩ (gridOf 2) (rankCell (gridOf 2) rank)) :=
      brickIn_rank hg (by decide) hle (by decide) (by rwa [hvolume])
    rw [(loadRawVolume_voxels FileAccess.documented_plain rfl hin (by decide) hsucceeds
      (hbrick rank hrank).loaded).1]
    exact hin.memory
  obtain ⟨rank, ⟨hhas, hends, hfinite⟩, -⟩ := volume_delivered .plain FileAccess.documented_plain
    cubeConfig cubeFile .uint8 ⟨2, 2, 2⟩ 2 rfl (by decide) rfl hpos (by decide) (by decide)
    (by decide) hsucceeds bricks
    (fun rank hrank => (loadVolumeBrick_iff rfl (by decide) hpos (by decide) hrank).2
      (hbrick rank hrank))
    (fun rank => [(bricks rank).snapshot (Int32.ofNat rank)])
    (fun rank hrank q hq => List.mem_singleton.1 hq ▸
      VolumeBrick.shownBy_snapshot (hlength rank hrank) _)
    ⟨1, 0, 1⟩ (by rw [gridOf_two]; decide)
  refine ⟨bricks, rank, hhas, fun d hd hstuck => ?_, hfinite⟩
  obtain ⟨regions, hreader, hone, hvoxels⟩ := hends d hd hstuck
  refine ⟨regions, hreader, hone, fun region hregion => ?_⟩
  have hlayers : layersRead 1 (brickDims ⟨2, 2, 2⟩ (gridOf 2)) = 2 := by
    rw [gridOf_two]
    decide
  have hread : 1 - (bricks rank).lower.z.toNat <
      layersRead 1 (brickDims ⟨2, 2, 2⟩ (gridOf 2)) := by
    omega
  exact (hvoxels region hregion).trans (congrArg some (if_pos hread))

end Delivered

end LibIS
