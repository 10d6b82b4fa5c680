import LibIS.Grid
import LibIS.Library.Tables
import LibIS.Sim.Setters

set_option autoImplicit false

/-! # Loading a volume (`volume_example_sim.cpp`)

Each rank of the volume example loads the brick of a RAW file that belongs to its cell of the grid.
MPI counts bytes in `int`s, so `load_raw_volume` reads a brick in chunks of equally many layers.
The number of layers of a chunk is rounded down, so the chunks may not reach the end of the brick;
the layers behind them stay zero. -/

open ByteCodec Tables

namespace LibIS

/-- What goes wrong when a brick is loaded: exceptions, undefined arithmetic on integers, and
    subarrays that MPI does not accept, which ends the program. -/
inductive VolumeFault where
  | threw (e : Fault)
  | arithmetic (e : GridFault)
  | invalidSubarray
deriving DecidableEq

/-- An `int` computation. -/
def ofInts {α : Type} : Except GridFault α → Except VolumeFault α
  | .ok a => .ok a
  | .error e => .error (.arithmetic e)

/-- An `int` as a `size_t`. -/
def sizeOfInt (v : ℤ) : UInt64 :=
  UInt64.ofInt v

/-- A `size_t` as an `int`. -/
def intOfSize (n : UInt64) : ℤ :=
  n.toUInt32.toInt32.toInt

/-! ## The operators of `vec3` -/

namespace Vec3

/-- An operator on `vec3<int>`s, coordinate by coordinate. -/
def mapInts (op : ℤ → ℤ → Except GridFault ℤ) (a b : Vec3 ℤ) : Except GridFault (Vec3 ℤ) := do
  let x ← op a.x b.x
  let y ← op a.y b.y
  let z ← op a.z b.z
  return ⟨x, y, z⟩

/-- `a * b`. -/
def mulInts : Vec3 ℤ → Vec3 ℤ → Except GridFault (Vec3 ℤ) :=
  mapInts (fun a b => checkInt (a * b))

/-- `a + b`. -/
def addInts : Vec3 ℤ → Vec3 ℤ → Except GridFault (Vec3 ℤ) :=
  mapInts (fun a b => checkInt (a + b))

/-- `a / b`. -/
def divInts : Vec3 ℤ → Vec3 ℤ → Except GridFault (Vec3 ℤ) :=
  mapInts intDiv

end Vec3

/-! ## What MPI does with a file -/

/-- A RAW file, and whether each collective read of it succeeds. -/
structure RawFile where
  bytes : Bytes
  succeeds : ℕ → Bool

/-- The bytes of a voxel of a file. -/
def RawFile.voxel (file : RawFile) (voxelSize p : ℕ) : Bytes :=
  (file.bytes.drop (p * voxelSize)).take voxelSize

/-- What MPI makes of a subarray, and what a collective read gets from the start of a file that is
    viewed through it. -/
structure FileAccess where
  View : Type
  createSubarray (sizes subsizes starts : Vec3 ℤ) : Except VolumeFault View
  readAll (file : RawFile) (voxelSize : ℕ) (view : View) (count : ℤ) : Bytes

/-- A subarray has at least one element on each axis and lies within the array. -/
def SubarrayIn (sizes subsizes starts : Vec3 ℤ) : Prop :=
  (1 ≤ subsizes.x ∧ 0 ≤ starts.x ∧ starts.x + subsizes.x ≤ sizes.x) ∧
    (1 ≤ subsizes.y ∧ 0 ≤ starts.y ∧ starts.y + subsizes.y ≤ sizes.y) ∧
    (1 ≤ subsizes.z ∧ 0 ≤ starts.z ∧ starts.z + subsizes.z ≤ sizes.z)

instance (sizes subsizes starts : Vec3 ℤ) : Decidable (SubarrayIn sizes subsizes starts) :=
  inferInstanceAs (Decidable (_ ∧ _))

/-- The elements of an array that a subarray selects, with the first coordinate running fastest. -/
def subarray (sizes subsizes starts : Vec3 ℤ) : List ℕ :=
  array subsizes.x.toNat subsizes.y.toNat subsizes.z.toNat (fun x y z =>
    cell sizes.x.toNat sizes.y.toNat (starts.x.toNat + x) (starts.y.toNat + y)
      (starts.z.toNat + z))

/-- What MPI documents: a subarray that is no part of its array is an error, which ends the program,
    and a read gets the elements that the view selects, one after the other, as far as the file
    goes. -/
structure FileAccess.Documented (mpi : FileAccess) : Prop where
  rejects : ∀ sizes subsizes starts, ¬ SubarrayIn sizes subsizes starts →
    mpi.createSubarray sizes subsizes starts = .error .invalidSubarray
  reads : ∀ sizes subsizes starts, SubarrayIn sizes subsizes starts →
    ∃ view, mpi.createSubarray sizes subsizes starts = .ok view ∧
      ∀ (file : RawFile) (voxelSize count : ℕ), count ≤ (subarray sizes subsizes starts).length →
        mpi.readAll file voxelSize view count =
          ((subarray sizes subsizes starts).take count).flatMap (file.voxel voxelSize)

/-- An MPI that does no more than it documents. -/
def FileAccess.plain : FileAccess where
  View := List ℕ
  createSubarray sizes subsizes starts :=
    if SubarrayIn sizes subsizes starts then .ok (subarray sizes subsizes starts)
    else .error .invalidSubarray
  readAll file voxelSize view count := (view.take count.toNat).flatMap (file.voxel voxelSize)

theorem FileAccess.documented_plain : FileAccess.plain.Documented where
  rejects _ _ _ h := if_neg h
  reads _ _ _ h := ⟨_, if_pos h, fun _ _ _ _ => rfl⟩

/-- `buf` with `data` written into it from `offset` on. -/
def storeAt (offset : ℕ) (data buf : Bytes) : Except VolumeFault Bytes :=
  if buf.length < offset + data.length then
    .error (.threw .outOfBounds)
  else
    .ok (buf.take offset ++ data ++ buf.drop (offset + data.length))

/-! ## `load_raw_volume` -/

/-- The size of a voxel of the given type. -/
def voxelSizeOf (dtype : String) : Except VolumeFault UInt64 :=
  if dtype = "uint8" then .ok 1
  else if dtype = "uint16" then .ok 2
  else if dtype = "float32" then .ok 4
  else if dtype = "float64" then .ok 8
  else .error (.threw (.runtimeError ("Unrecognized voxel type " ++ dtype)))

/-- How a brick is read. -/
structure ChunkPlan where
  voxelSize : UInt64
  nVoxels : UInt64
  nChunks : UInt64
  chunkThickness : UInt64

/-- The part of `load_raw_volume` before the file is opened. -/
def planChunks (voxelSize : UInt64) (brickDims : Vec3 ℤ) : Except VolumeFault ChunkPlan :=
  let nVoxels := sizeOfInt brickDims.x * sizeOfInt brickDims.y * sizeOfInt brickDims.z
  let elementsPerRead := 2147483647 / voxelSize
  let nChunks := nVoxels / elementsPerRead + if 0 < nVoxels % elementsPerRead then 1 else 0
  if nChunks = 0 then
    .error (.arithmetic .divisionByZero)
  else
    .ok ⟨voxelSize, nVoxels, nChunks, sizeOfInt brickDims.z / nChunks⟩

namespace ChunkPlan

variable (p : ChunkPlan)

/-- `chunk_offset` of chunk `i`. -/
def chunkOffset (brickOffset : Vec3 ℤ) (i : UInt64) : Vec3 ℤ :=
  ⟨brickOffset.x, brickOffset.y, intOfSize (sizeOfInt brickOffset.z + i * p.chunkThickness)⟩

/-- `chunk_dims` of chunk `i`. The last chunk that is reached is cut to the end of the brick. -/
def chunkDims (brickDims : Vec3 ℤ) (i : UInt64) : Vec3 ℤ :=
  ⟨brickDims.x, brickDims.y,
    if sizeOfInt brickDims.z ≤ i * p.chunkThickness + p.chunkThickness then
      intOfSize (sizeOfInt brickDims.z - i * p.chunkThickness)
    else
      intOfSize p.chunkThickness⟩

/-- `byte_offset` of chunk `i`. -/
def byteOffset (brickDims : Vec3 ℤ) (i : UInt64) : UInt64 :=
  i * p.chunkThickness * sizeOfInt brickDims.y * sizeOfInt brickDims.x * p.voxelSize

/-- `chunk_voxels` of a chunk. -/
def chunkVoxels (dims : Vec3 ℤ) : Except GridFault ℤ := do
  let rows ← checkInt (dims.x * dims.y)
  checkInt (rows * dims.z)

/-- One turn of the loop of `load_raw_volume`. -/
def readChunk (mpi : FileAccess) (file : RawFile) (volDims brickDims brickOffset : Vec3 ℤ) (i : ℕ)
    (voxelData : Bytes) : Except VolumeFault Bytes := do
  let offset := p.chunkOffset brickOffset (UInt64.ofNat i)
  let dims := p.chunkDims brickDims (UInt64.ofNat i)
  let count ← ofInts (chunkVoxels dims)
  let view ← mpi.createSubarray volDims dims offset
  if file.succeeds i then
    storeAt (p.byteOffset brickDims (UInt64.ofNat i)).toNat
      (mpi.readAll file p.voxelSize.toNat view count) voxelData
  else
    .error (.threw (.runtimeError "Failed to read all voxels from file"))

/-- The loop of `load_raw_volume`, with `n` turns left. -/
def readChunks (mpi : FileAccess) (file : RawFile) (volDims brickDims brickOffset : Vec3 ℤ) :
    ℕ → ℕ → Bytes → Except VolumeFault Bytes
  | 0, _, voxelData => .ok voxelData
  | n + 1, i, voxelData => do
      let voxelData ← p.readChunk mpi file volDims brickDims brickOffset i voxelData
      readChunks mpi file volDims brickDims brickOffset n (i + 1) voxelData

end ChunkPlan

/-- `load_raw_volume`. There is no file where it cannot be opened. -/
def loadRawVolume (mpi : FileAccess) (name : String) (file : Option RawFile)
    (dtype : String) (volDims brickDims brickOffset : Vec3 ℤ) : Except VolumeFault Bytes := do
  let voxelSize ← voxelSizeOf dtype
  let p ← planChunks voxelSize brickDims
  match file with
  | none => .error (.threw (.runtimeError ("Failed to open " ++ name)))
  | some file =>
      p.readChunks mpi file volDims brickDims brickOffset p.nChunks.toNat 0
        (zeros (p.nVoxels * p.voxelSize).toNat)

/-! ## `load_volume_brick` -/

/-- What is read of the configuration, without the spacing. -/
structure VolumeConfig where
  volume : String
  size : Vec3 ℤ
  type : String

/-- `VolumeBrick`. Its bounds are `lower` and `upper`, in voxels. -/
structure VolumeBrick where
  lower : Vec3 ℤ
  upper : Vec3 ℤ
  dims : Vec3 ℤ
  dtype : DType
  voxelData : Bytes

/-- The type of the voxels of a brick. -/
def voxelDType (type : String) : Except VolumeFault DType :=
  if type = "uint8" then .ok .uint8
  else if type = "float32" then .ok .float
  else if type = "float64" then .ok .double
  else .error (.threw (.runtimeError ("[error]: Unsupported voxel type: " ++ type)))

/-- `load_volume_brick` with the grid of the ranks. -/
def loadGridBrick (mpi : FileAccess) (config : VolumeConfig) (file : Option RawFile)
    (grid : Vec3 ℤ) (mpiRank : ℤ) : Except VolumeFault VolumeBrick := do
  let brickId ← ofInts (brickId grid mpiRank)
  let dims ← ofInts (config.size.divInts grid)
  let lower ← ofInts (brickId.mulInts dims)
  let upper ← ofInts (lower.addInts dims)
  let dtype ← voxelDType config.type
  let voxelData ← loadRawVolume mpi config.volume file config.type config.size dims lower
  return ⟨lower, upper, dims, dtype, voxelData⟩

/-- `load_volume_brick`: `none` when `compute_grid` has not ended after `fuel` turns. -/
def loadVolumeBrick (mpi : FileAccess) (fuel : ℕ) (config : VolumeConfig)
    (file : Option RawFile) (mpiRank mpiSize : ℤ) : Option (Except VolumeFault VolumeBrick) :=
  (computeGrid fuel mpiSize).map (fun grid =>
    ofInts grid >>= fun grid => loadGridBrick mpi config file grid mpiRank)

/-- The dimensions that the example passes with the voxels of a brick. -/
def VolumeBrick.fieldDims (brick : VolumeBrick) : Dims :=
  ⟨[sizeOfInt brick.dims.x, sizeOfInt brick.dims.y, sizeOfInt brick.dims.z], rfl⟩

/-- The field that the example sets for a brick. -/
def VolumeBrick.field (brick : VolumeBrick) (fieldName : StdString) (data : UInt64) : Buffer :=
  fieldBuffer fieldName brick.fieldDims brick.dtype data

/-! ## Integers in range -/

theorem VolumeFault.ok_bind {α β : Type} (a : α) (f : α → Except VolumeFault β) :
    (Except.ok a >>= f) = f a := rfl

theorem VolumeFault.error_bind {α β : Type} (e : VolumeFault) (f : α → Except VolumeFault β) :
    (Except.error e >>= f) = .error e := rfl

@[simp] theorem ofInts_ok {α : Type} (a : α) :
    ofInts (Except.ok a : Except GridFault α) = .ok a := rfl

theorem sizeOfInt_toNat {n : ℕ} (h : n < 2 ^ 64) : (sizeOfInt n).toNat = n := by
  rw [sizeOfInt, UInt64.ofInt, UInt64.toNat_ofNat']
  omega

theorem intOfSize_of_lt {n : UInt64} (h : n.toNat < 2 ^ 31) : intOfSize n = n.toNat := by
  have hnat : n.toUInt32.toBitVec.toNat = n.toNat % 2 ^ 32 := by simp
  have hbits : intOfSize n = n.toUInt32.toBitVec.toInt := rfl
  rw [hbits, BitVec.toInt_eq_toNat_cond, hnat]
  omega

/-! ## How many layers are read -/

/-- The number of elements that one read may have. -/
def elementsPerRead (voxelSize : ℕ) : ℕ :=
  2147483647 / voxelSize

/-- The number of reads for a brick. -/
def readCount (voxelSize : ℕ) (dims : Vec3 ℕ) : ℕ :=
  dims.volume / elementsPerRead voxelSize +
    if 0 < dims.volume % elementsPerRead voxelSize then 1 else 0

/-- The number of layers of a read. -/
def thickness (voxelSize : ℕ) (dims : Vec3 ℕ) : ℕ :=
  dims.z / readCount voxelSize dims

/-- The number of layers of a brick that are read. -/
def layersRead (voxelSize : ℕ) (dims : Vec3 ℕ) : ℕ :=
  readCount voxelSize dims * thickness voxelSize dims

/-- A brick that has voxels, lies within a volume and fits in memory. -/
structure BrickIn (voxelSize : ℕ) (vol dims offset : Vec3 ℕ) : Prop where
  positive : dims.Positive
  x_le : offset.x + dims.x ≤ vol.x
  y_le : offset.y + dims.y ≤ vol.y
  z_le : offset.z + dims.z ≤ vol.z
  x_lt : vol.x < 2 ^ 31
  y_lt : vol.y < 2 ^ 31
  z_lt : vol.z < 2 ^ 31
  memory : dims.volume * voxelSize < 2 ^ 64

section Layers

variable {voxelSize : ℕ} {dims : Vec3 ℕ}

theorem volume_layers (dims : Vec3 ℕ) : dims.volume = dims.z * (dims.y * dims.x) := by
  rw [Vec3.volume, Nat.mul_comm, Nat.mul_comm dims.x]

/-- The reads have room for the brick, and one fewer does not. -/
theorem readCount_bounds (hsize : 0 < elementsPerRead voxelSize) (hpos : 0 < dims.volume) :
    dims.volume ≤ readCount voxelSize dims * elementsPerRead voxelSize ∧
      (readCount voxelSize dims - 1) * elementsPerRead voxelSize < dims.volume := by
  have hdiv := Nat.div_add_mod dims.volume (elementsPerRead voxelSize)
  have hmod := Nat.mod_lt dims.volume hsize
  rw [Nat.mul_comm] at hdiv
  unfold readCount
  split
  · rw [Nat.add_sub_cancel, Nat.succ_mul]
    omega
  · next hrest =>
      have hzero : dims.volume % elementsPerRead voxelSize = 0 := by omega
      rw [hzero, Nat.add_zero] at hdiv
      rw [Nat.add_zero, Nat.sub_mul, Nat.one_mul]
      omega

theorem readCount_pos (hpos : 0 < dims.volume) : 0 < readCount voxelSize dims := by
  rw [readCount]
  split
  · exact Nat.succ_pos _
  · next hrest =>
      rw [Nat.add_zero]
      refine Nat.pos_of_ne_zero (fun hzero => hrest ?_)
      have hdiv := Nat.div_add_mod dims.volume (elementsPerRead voxelSize)
      rw [hzero, Nat.mul_zero, Nat.zero_add] at hdiv
      omega

/-- There are no more reads than layers just when a read has room for a layer. -/
theorem readCount_le_iff (hsize : 0 < elementsPerRead voxelSize) (hpos : dims.Positive) :
    readCount voxelSize dims ≤ dims.z ↔ dims.y * dims.x ≤ elementsPerRead voxelSize := by
  have hvolume : 0 < dims.volume :=
    Nat.mul_pos (Nat.mul_pos hpos.x hpos.y) hpos.z
  obtain ⟨hroom, hfew⟩ := readCount_bounds hsize hvolume
  have hcount : 0 < readCount voxelSize dims := readCount_pos hvolume
  rw [volume_layers] at hroom hfew
  constructor
  · intro hle
    have h := hroom.trans (Nat.mul_le_mul_right (elementsPerRead voxelSize) hle)
    exact Nat.le_of_mul_le_mul_left h hpos.z
  · intro hle
    have h := hfew.trans_le (Nat.mul_le_mul_left dims.z hle)
    have hlt := Nat.lt_of_mul_lt_mul_right h
    omega

theorem thickness_le (hsize : 0 < elementsPerRead voxelSize) (hpos : dims.Positive) :
    thickness voxelSize dims * (dims.y * dims.x) ≤ elementsPerRead voxelSize := by
  have hvolume : 0 < dims.volume :=
    Nat.mul_pos (Nat.mul_pos hpos.x hpos.y) hpos.z
  have hroom := (readCount_bounds hsize hvolume).1
  have hcount : 0 < readCount voxelSize dims := readCount_pos hvolume
  have hthick : readCount voxelSize dims * thickness voxelSize dims ≤ dims.z :=
    Nat.mul_div_le dims.z (readCount voxelSize dims)
  refine Nat.le_of_mul_le_mul_left ?_ hcount
  calc readCount voxelSize dims * (thickness voxelSize dims * (dims.y * dims.x))
      = readCount voxelSize dims * (thickness voxelSize dims) * (dims.y * dims.x) :=
        (Nat.mul_assoc ..).symm
    _ ≤ dims.z * (dims.y * dims.x) := Nat.mul_le_mul_right _ hthick
    _ = dims.volume := (volume_layers dims).symm
    _ ≤ readCount voxelSize dims * elementsPerRead voxelSize := hroom

theorem layersRead_le (voxelSize : ℕ) (dims : Vec3 ℕ) : layersRead voxelSize dims ≤ dims.z :=
  Nat.mul_div_le dims.z (readCount voxelSize dims)

end Layers

/-! ## The plan -/

/-- The plan for a brick with voxels of `width` bytes. -/
structure ChunkPlan.For (p : ChunkPlan) (width : ℕ) (dims : Vec3 ℕ) : Prop where
  voxelSize : p.voxelSize.toNat = width
  nVoxels : p.nVoxels.toNat = dims.volume
  nChunks : p.nChunks.toNat = readCount width dims
  chunkThickness : p.chunkThickness.toNat = thickness width dims

section Plan

variable {voxelSize : UInt64} {vol dims offset : Vec3 ℕ}

theorem BrickIn.dims_lt {w : ℕ} (h : BrickIn w vol dims offset) :
    dims.x < 2 ^ 31 ∧ dims.y < 2 ^ 31 ∧ dims.z < 2 ^ 31 := by
  have hx := h.x_le
  have hy := h.y_le
  have hz := h.z_le
  have hx' := h.x_lt
  have hy' := h.y_lt
  have hz' := h.z_lt
  omega

theorem BrickIn.volume_lt {w : ℕ} (h : BrickIn w vol dims offset) (hw : 0 < w) :
    dims.volume < 2 ^ 64 :=
  (Nat.le_mul_of_pos_right _ hw).trans_lt h.memory

theorem BrickIn.volume_pos {w : ℕ} (h : BrickIn w vol dims offset) : 0 < dims.volume :=
  Nat.mul_pos (Nat.mul_pos h.positive.x h.positive.y) h.positive.z

theorem sizeOfInt_mul {m n : ℕ} (hm : m < 2 ^ 31) (hn : n < 2 ^ 31) :
    (sizeOfInt m * sizeOfInt n).toNat = m * n := by
  have hlt : m * n < 2 ^ 31 * 2 ^ 31 := Nat.mul_lt_mul'' hm hn
  rw [UInt64.toNat_mul, sizeOfInt_toNat (by omega), sizeOfInt_toNat (by omega),
    Nat.mod_eq_of_lt (by omega)]

theorem planChunks_eq (h : BrickIn voxelSize.toNat vol dims offset)
    (hpos : 0 < voxelSize.toNat) (hsize : 0 < elementsPerRead voxelSize.toNat) :
    ∃ p, planChunks voxelSize dims.ints = .ok p ∧ p.For voxelSize.toNat dims := by
  obtain ⟨hx, hy, hz⟩ := h.dims_lt
  have hvolume := h.volume_lt hpos
  have hvoxels : (sizeOfInt dims.ints.x * sizeOfInt dims.ints.y *
      sizeOfInt dims.ints.z).toNat = dims.volume := by
    simp only [Vec3.ints]
    rw [UInt64.toNat_mul, sizeOfInt_mul hx hy, sizeOfInt_toNat (by omega)]
    exact Nat.mod_eq_of_lt hvolume
  have helements : (2147483647 / voxelSize : UInt64).toNat = elementsPerRead voxelSize.toNat := by
    rw [UInt64.toNat_div]
    rfl
  have hbounds := readCount_bounds hsize h.volume_pos
  have hcount : readCount voxelSize.toNat dims ≤ dims.volume := by
    have hlt := (Nat.le_mul_of_pos_right (readCount voxelSize.toNat dims - 1) hsize).trans_lt
      hbounds.2
    omega
  -- no product wraps, so the values are those of the natural numbers
  generalize hn : sizeOfInt dims.ints.x * sizeOfInt dims.ints.y * sizeOfInt dims.ints.z = nVoxels
    at hvoxels
  generalize he : (2147483647 / voxelSize : UInt64) = elements at helements
  have hchunks : (nVoxels / elements + if 0 < nVoxels % elements then 1 else 0 : UInt64).toNat =
      readCount voxelSize.toNat dims := by
    have hrest : (0 < nVoxels % elements) ↔
        0 < dims.volume % elementsPerRead voxelSize.toNat := by
      rw [UInt64.lt_iff_toNat_lt, UInt64.toNat_mod, hvoxels, helements]
      exact Iff.rfl
    have hone : (if 0 < nVoxels % elements then 1 else 0 : UInt64).toNat =
        if 0 < dims.volume % elementsPerRead voxelSize.toNat then 1 else 0 := by
      by_cases hr : 0 < nVoxels % elements
      · rw [if_pos hr, if_pos (hrest.1 hr)]
        rfl
      · rw [if_neg hr, if_neg (fun h => hr (hrest.2 h))]
        rfl
    rw [UInt64.toNat_add, UInt64.toNat_div, hone, hvoxels, helements]
    exact Nat.mod_eq_of_lt (hcount.trans_lt hvolume)
  generalize hc : (nVoxels / elements + if 0 < nVoxels % elements then 1 else 0 : UInt64) = nChunks
    at hchunks
  have hne : nChunks ≠ 0 := by
    rintro rfl
    exact absurd hchunks (readCount_pos h.volume_pos).ne
  refine ⟨⟨voxelSize, nVoxels, nChunks, sizeOfInt dims.ints.z / nChunks⟩, ?_,
    ⟨rfl, hvoxels, hchunks, ?_⟩⟩
  · unfold planChunks
    dsimp only
    rw [hn, he, hc, if_neg hne]
  · rw [UInt64.toNat_div, hchunks]
    simp only [Vec3.ints]
    rw [sizeOfInt_toNat (by omega), thickness]

end Plan

/-! ## One chunk -/

/-- The bytes of a block of a volume in a file. -/
def RawFile.block (file : RawFile) (voxelSize : ℕ) (vol offset dims : Vec3 ℕ) : Bytes :=
  (array dims.x dims.y dims.z (fun x y z =>
    cell vol.x vol.y (offset.x + x) (offset.y + y) (offset.z + z))).flatMap (file.voxel voxelSize)

/-- The first `n` layers of a brick. -/
def Vec3.withLayers (dims : Vec3 ℕ) (n : ℕ) : Vec3 ℕ :=
  { dims with z := n }

/-- A brick from layer `n` on. -/
def Vec3.above (offset : Vec3 ℕ) (n : ℕ) : Vec3 ℕ :=
  { offset with z := offset.z + n }

section Block

variable {file : RawFile} {voxelSize : ℕ} {vol dims offset : Vec3 ℕ}

theorem RawFile.voxel_length (hfile : vol.volume * voxelSize ≤ file.bytes.length) {p : ℕ}
    (hp : p < vol.volume) : (file.voxel voxelSize p).length = voxelSize := by
  have hle : (p + 1) * voxelSize ≤ vol.volume * voxelSize := Nat.mul_le_mul_right voxelSize hp
  rw [Nat.succ_mul] at hle
  rw [RawFile.voxel, List.length_take, List.length_drop]
  omega

theorem mem_block (hx : offset.x + dims.x ≤ vol.x) (hy : offset.y + dims.y ≤ vol.y)
    (hz : offset.z + dims.z ≤ vol.z) {p : ℕ}
    (hp : p ∈ array dims.x dims.y dims.z (fun x y z =>
      cell vol.x vol.y (offset.x + x) (offset.y + y) (offset.z + z))) : p < vol.volume := by
  simp only [array, table, List.mem_flatMap, List.mem_range, List.mem_singleton] at hp
  obtain ⟨z, hz', y, hy', x, hx', rfl⟩ := hp
  rw [volume_layers, ← Nat.mul_assoc]
  exact cell_lt (by omega) (by omega) (by omega)

theorem RawFile.block_length (hfile : vol.volume * voxelSize ≤ file.bytes.length)
    (hx : offset.x + dims.x ≤ vol.x) (hy : offset.y + dims.y ≤ vol.y)
    (hz : offset.z + dims.z ≤ vol.z) :
    (file.block voxelSize vol offset dims).length = dims.volume * voxelSize := by
  rw [RawFile.block, flatMap_length (fun _ hp => file.voxel_length hfile (mem_block hx hy hz hp)),
    array_length, ← volume_layers]

theorem RawFile.block_voxel (hfile : vol.volume * voxelSize ≤ file.bytes.length)
    (hx : offset.x + dims.x ≤ vol.x) (hy : offset.y + dims.y ≤ vol.y)
    (hz : offset.z + dims.z ≤ vol.z) {x y z : ℕ} (hx' : x < dims.x) (hy' : y < dims.y)
    (hz' : z < dims.z) :
    ((file.block voxelSize vol offset dims).drop (cell dims.x dims.y x y z * voxelSize)).take
        voxelSize =
      file.voxel voxelSize (cell vol.x vol.y (offset.x + x) (offset.y + y) (offset.z + z)) :=
  flatMap_entry (fun _ hp => file.voxel_length hfile (mem_block hx hy hz hp))
    (array_getElem? hx' hy' hz')

/-- A block is read layer by layer. -/
theorem RawFile.block_layers (m n : ℕ) :
    file.block voxelSize vol offset (dims.withLayers (m + n)) =
      file.block voxelSize vol offset (dims.withLayers m) ++
        file.block voxelSize vol (offset.above m) (dims.withLayers n) := by
  simp only [RawFile.block, Vec3.withLayers, Vec3.above, array_layers, List.flatMap_append,
    Nat.add_assoc]

end Block

/-! ## The loop -/

section Loop

variable {p : ChunkPlan} {mpi : FileAccess} {file : RawFile} {w i : ℕ} {vol dims offset : Vec3 ℕ}

theorem chunk_le (hi : i < readCount w dims) :
    i * (thickness w dims) + thickness w dims ≤ dims.z := by
  rw [← Nat.succ_mul]
  exact (Nat.mul_le_mul_right _ hi).trans (Nat.mul_div_le dims.z _)

theorem ChunkPlan.For.start_toNat (hp : p.For w dims) (h : BrickIn w vol dims offset)
    (hi : i < readCount w dims) :
    (UInt64.ofNat i * p.chunkThickness).toNat = i * (thickness w dims) := by
  obtain ⟨-, -, hz⟩ := h.dims_lt
  have hchunk := chunk_le hi
  have hcount := hp.nChunks ▸ p.nChunks.toNat_lt
  rw [UInt64.toNat_mul, UInt64.toNat_ofNat', Nat.mod_eq_of_lt (hi.trans hcount), hp.chunkThickness]
  exact Nat.mod_eq_of_lt (by omega)

theorem ChunkPlan.For.chunkOffset (hp : p.For w dims) (h : BrickIn w vol dims offset)
    (hi : i < readCount w dims) :
    p.chunkOffset offset.ints (UInt64.ofNat i) =
      (offset.above (i * (thickness w dims))).ints := by
  have hchunk := chunk_le hi
  have hz := h.z_le
  have hz' := h.z_lt
  have hsum : (sizeOfInt offset.z + UInt64.ofNat i * p.chunkThickness).toNat =
      offset.z + i * (thickness w dims) := by
    rw [UInt64.toNat_add, sizeOfInt_toNat (by omega), hp.start_toNat h hi]
    exact Nat.mod_eq_of_lt (by omega)
  simp only [ChunkPlan.chunkOffset, Vec3.ints, Vec3.above]
  rw [intOfSize_of_lt (by rw [hsum]; omega), hsum]

theorem ChunkPlan.For.chunkDims (hp : p.For w dims) (h : BrickIn w vol dims offset)
    (hi : i < readCount w dims) :
    p.chunkDims dims.ints (UInt64.ofNat i) =
      (dims.withLayers (thickness w dims)).ints := by
  obtain ⟨-, -, hz⟩ := h.dims_lt
  have hchunk := chunk_le hi
  have hstart := hp.start_toNat h hi
  have hthick := hp.chunkThickness
  have hend : (UInt64.ofNat i * p.chunkThickness + p.chunkThickness).toNat =
      i * (thickness w dims) + thickness w dims := by
    rw [UInt64.toNat_add, hstart, hthick]
    exact Nat.mod_eq_of_lt (by omega)
  have hdepth : (sizeOfInt dims.z).toNat = dims.z := sizeOfInt_toNat (by omega)
  by_cases hlast : sizeOfInt dims.ints.z ≤
      UInt64.ofNat i * p.chunkThickness + p.chunkThickness
  · -- the end of the brick is the end of the chunk
    have hle : dims.z ≤ i * thickness w dims + thickness w dims := by
      rw [UInt64.le_iff_toNat_le, hend] at hlast
      exact hdepth ▸ hlast
    have hrest : (sizeOfInt dims.z - UInt64.ofNat i * p.chunkThickness).toNat =
        thickness w dims := by
      rw [UInt64.toNat_sub_of_le _ _ (by rw [UInt64.le_iff_toNat_le, hstart, hdepth]; omega), hstart,
        hdepth]
      omega
    rw [ChunkPlan.chunkDims, if_pos hlast]
    simp only [Vec3.ints, Vec3.withLayers]
    rw [intOfSize_of_lt (by rw [hrest]; omega), hrest]
  · rw [ChunkPlan.chunkDims, if_neg hlast]
    simp only [Vec3.ints, Vec3.withLayers]
    rw [intOfSize_of_lt (by rw [hthick]; omega), hthick]

theorem ChunkPlan.For.byteOffset (hp : p.For w dims) (h : BrickIn w vol dims offset)
    (hw : 0 < w) (hi : i < readCount w dims) :
    (p.byteOffset dims.ints (UInt64.ofNat i)).toNat =
      (dims.withLayers (i * (thickness w dims))).volume * w := by
  obtain ⟨hx, hy, hz⟩ := h.dims_lt
  have hchunk := chunk_le hi
  generalize hn : i * (thickness w dims) = n at hchunk
  have hle : n * (dims.y * dims.x) * w ≤ dims.volume * w := by
    rw [volume_layers]
    exact Nat.mul_le_mul_right w (Nat.mul_le_mul_right _ (by omega))
  have hlt : n * (dims.y * dims.x) * w < 2 ^ 64 := hle.trans_lt h.memory
  have hlt₁ : n * (dims.y * dims.x) < 2 ^ 64 := (Nat.le_mul_of_pos_right _ hw).trans_lt hlt
  have hlt₂ : n * dims.y < 2 ^ 64 := by
    rw [← Nat.mul_assoc] at hlt₁
    exact (Nat.le_mul_of_pos_right _ h.positive.x).trans_lt hlt₁
  simp only [ChunkPlan.byteOffset, Vec3.ints]
  rw [UInt64.toNat_mul, UInt64.toNat_mul, UInt64.toNat_mul, hp.start_toNat h hi, hn,
    sizeOfInt_toNat (by omega), sizeOfInt_toNat (by omega), hp.voxelSize, Nat.mod_eq_of_lt hlt₂,
    Nat.mul_assoc, Nat.mod_eq_of_lt hlt₁, Nat.mod_eq_of_lt hlt, volume_layers]
  rfl

theorem chunkVoxels_eq {d : Vec3 ℕ} (hz : 0 < d.z) (hlt : d.volume < 2 ^ 31) :
    ChunkPlan.chunkVoxels d.ints = .ok (d.volume : ℤ) := by
  have hrows : d.x * d.y < 2 ^ 31 := (Nat.le_mul_of_pos_right _ hz).trans_lt hlt
  simp only [ChunkPlan.chunkVoxels, Vec3.ints]
  rw [← Nat.cast_mul, checkInt_natCast hrows, ok_bind, ← Nat.cast_mul]
  exact checkInt_natCast hlt

theorem checkInt_eq_ok {a v : ℤ} (h : checkInt a = .ok v) : v = a := by
  unfold checkInt at h
  split at h
  · exact (Except.ok.inj h).symm
  · exact absurd h (by simp)

/-- What a read asks for is no more than one read may have. -/
theorem ChunkPlan.For.count_le (hp : p.For w dims) (h : BrickIn w vol dims offset)
    (hsize : 0 < elementsPerRead w) (hi : i < readCount w dims) {count : ℤ}
    (hcount : ChunkPlan.chunkVoxels (p.chunkDims dims.ints (UInt64.ofNat i)) = .ok count) :
    count ≤ elementsPerRead w := by
  have hfits := thickness_le hsize h.positive
  rw [hp.chunkDims h hi, ChunkPlan.chunkVoxels] at hcount
  cases hrows : checkInt ((dims.withLayers (thickness w dims)).ints.x *
      (dims.withLayers (thickness w dims)).ints.y) with
  | error e =>
      rw [hrows] at hcount
      exact absurd hcount (by simp [Bind.bind, Except.bind])
  | ok rows =>
      rw [hrows, ok_bind] at hcount
      have hall : count = (thickness w dims * (dims.y * dims.x) : ℕ) := by
        rw [checkInt_eq_ok hcount, checkInt_eq_ok hrows]
        simp only [Vec3.ints, Vec3.withLayers]
        push_cast
        ring
      rw [hall]
      exact_mod_cast hfits

theorem subarrayIn_ints {d o : Vec3 ℕ} (hpos : d.Positive) (hx : o.x + d.x ≤ vol.x)
    (hy : o.y + d.y ≤ vol.y) (hz : o.z + d.z ≤ vol.z) :
    SubarrayIn vol.ints d.ints o.ints := by
  obtain ⟨hpx, hpy, hpz⟩ := hpos
  simp only [SubarrayIn, Vec3.ints]
  omega

theorem subarray_ints (vol d o : Vec3 ℕ) :
    subarray vol.ints d.ints o.ints = array d.x d.y d.z (fun x y z =>
      cell vol.x vol.y (o.x + x) (o.y + y) (o.z + z)) := by
  simp only [subarray, Vec3.ints, Int.toNat_natCast]

theorem subarray_length (vol d o : Vec3 ℕ) :
    (subarray vol.ints d.ints o.ints).length = d.volume := by
  rw [subarray_ints, array_length, volume_layers]

/-- A write at the end of what has been written. -/
theorem storeAt_zeros (written data : Bytes) (rest : ℕ) :
    storeAt written.length data (written ++ zeros (data.length + rest)) =
      .ok (written ++ data ++ zeros rest) := by
  have hroom : ¬ (written ++ zeros (data.length + rest)).length < written.length + data.length := by
    rw [List.length_append, zeros_length]
    omega
  have htail : (written ++ zeros (data.length + rest)).drop (written.length + data.length) =
      zeros rest := by
    rw [← List.drop_drop, List.drop_left, zeros, List.drop_replicate, Nat.add_sub_cancel_left]
    rfl
  rw [storeAt, if_neg hroom, List.take_left, htail]

/-- One turn of the loop stores the next layers. -/
theorem ChunkPlan.For.readChunk (hmpi : mpi.Documented) (hp : p.For w dims)
    (h : BrickIn w vol dims offset) (hw : 0 < w) (hsize : 0 < elementsPerRead w) (hlayer : dims.y * dims.x ≤ elementsPerRead w)
    (hfile : vol.volume * w ≤ file.bytes.length) (hi : i < readCount w dims)
    (hsucceeds : file.succeeds i = true) (rest : ℕ) :
    p.readChunk mpi file vol.ints dims.ints offset.ints i
        (file.block w vol offset (dims.withLayers (i * (thickness w dims))) ++
          zeros ((dims.withLayers (thickness w dims)).volume * w + rest)) =
      .ok (file.block w vol offset (dims.withLayers ((i + 1) * (thickness w dims))) ++
        zeros rest) := by
  have hchunk := chunk_le hi
  have hthick : 0 < thickness w dims :=
    Nat.div_pos ((readCount_le_iff hsize h.positive).2 hlayer) (readCount_pos h.volume_pos)
  have hfits := thickness_le hsize h.positive
  rw [Nat.succ_mul, file.block_layers]
  have hoffset := hp.chunkOffset h hi
  have hdims := hp.chunkDims h hi
  have hbytes := hp.byteOffset h hw hi
  -- only the numbers of layers before and in the chunk matter from here on
  generalize hn : i * (thickness w dims) = n at *
  generalize ht : thickness w dims = t at *
  have hz : (offset.above n).z + (dims.withLayers t).z ≤ vol.z := by
    have hz := h.z_le
    simp only [Vec3.above, Vec3.withLayers]
    omega
  have hcount : (dims.withLayers t).volume < 2 ^ 31 := by
    have hlimit : elementsPerRead w ≤ 2147483647 := Nat.div_le_self _ _
    rw [volume_layers]
    exact (hfits.trans hlimit).trans_lt (by norm_num)
  have hblock : (dims.withLayers t).Positive := ⟨h.positive.x, h.positive.y, hthick⟩
  have hx : (offset.above n).x + (dims.withLayers t).x ≤ vol.x := h.x_le
  have hy : (offset.above n).y + (dims.withLayers t).y ≤ vol.y := h.y_le
  obtain ⟨view, hview, hread⟩ := hmpi.reads _ _ _ (subarrayIn_ints hblock hx hy hz)
  have hwritten : (file.block w vol offset (dims.withLayers n)).length =
      (dims.withLayers n).volume * w :=
    file.block_length hfile h.x_le h.y_le (by
      have hz := h.z_le
      simp only [Vec3.withLayers]
      omega)
  have hdata : (file.block w vol (offset.above n) (dims.withLayers t)).length =
      (dims.withLayers t).volume * w := file.block_length hfile h.x_le h.y_le hz
  have hlength := subarray_length vol (dims.withLayers t) (offset.above n)
  have hall : mpi.readAll file p.voxelSize.toNat view ((dims.withLayers t).volume : ℤ) =
      file.block w vol (offset.above n) (dims.withLayers t) := by
    rw [hread file p.voxelSize.toNat _ hlength.ge, ← hlength, List.take_length, hp.voxelSize,
      subarray_ints]
    rfl
  have hstore := storeAt_zeros (file.block w vol offset (dims.withLayers n))
    (file.block w vol (offset.above n) (dims.withLayers t)) rest
  rw [hwritten, hdata] at hstore
  have hvoxels := chunkVoxels_eq hblock.z hcount
  simp only [ChunkPlan.readChunk, hoffset, hdims, hvoxels, ofInts_ok, hview, hsucceeds, hbytes,
    VolumeFault.ok_bind, if_true]
  rw [← hstore]
  exact congrArg (fun data => storeAt _ data _) hall

theorem withLayers_volume (dims : Vec3 ℕ) (n : ℕ) :
    (dims.withLayers n).volume = n * (dims.y * dims.x) :=
  volume_layers (dims.withLayers n)

/-- The turns that are left store the layers that are left. -/
theorem ChunkPlan.For.readChunks (hmpi : mpi.Documented) (hp : p.For w dims)
    (h : BrickIn w vol dims offset) (hw : 0 < w) (hsize : 0 < elementsPerRead w) (hlayer : dims.y * dims.x ≤ elementsPerRead w)
    (hfile : vol.volume * w ≤ file.bytes.length) (hsucceeds : ∀ i, file.succeeds i = true)
    (n rest : ℕ) (hn : i + n = readCount w dims) :
    p.readChunks mpi file vol.ints dims.ints offset.ints n i
        (file.block w vol offset (dims.withLayers (i * thickness w dims)) ++
          zeros ((dims.withLayers (n * thickness w dims)).volume * w + rest)) =
      .ok (file.block w vol offset (dims.withLayers (layersRead w dims)) ++ zeros rest) := by
  induction n generalizing i with
  | zero =>
      obtain rfl : i = readCount w dims := hn
      rw [withLayers_volume, Nat.zero_mul, Nat.zero_mul, Nat.zero_mul, Nat.zero_add]
      rfl
  | succ n ih =>
      have hrest : (dims.withLayers ((n + 1) * thickness w dims)).volume * w + rest =
          (dims.withLayers (thickness w dims)).volume * w +
            ((dims.withLayers (n * thickness w dims)).volume * w + rest) := by
        simp only [withLayers_volume]
        ring
      have hturn := hp.readChunk hmpi h hw hsize hlayer hfile (by omega) (hsucceeds i)
        ((dims.withLayers (n * thickness w dims)).volume * w + rest)
      rw [ChunkPlan.readChunks, hrest, hturn, VolumeFault.ok_bind]
      exact ih (by omega)

end Loop

/-! ## A whole brick -/

section Load

variable {mpi : FileAccess} {name dtype : String} {file : RawFile} {voxelSize : UInt64}
  {vol dims offset : Vec3 ℕ}

theorem voxelSizeOf_cases (h : voxelSizeOf dtype = .ok voxelSize) :
    0 < voxelSize.toNat ∧ 0 < elementsPerRead voxelSize.toNat := by
  unfold voxelSizeOf at h
  split_ifs at h <;> cases h <;> exact ⟨by decide, by decide⟩

/-- Where a read has room for a layer, the layers that the reads reach are loaded. -/
theorem loadRawVolume_eq (hmpi : mpi.Documented) (hdtype : voxelSizeOf dtype = .ok voxelSize)
    (h : BrickIn voxelSize.toNat vol dims offset)
    (hlayer : dims.y * dims.x ≤ elementsPerRead voxelSize.toNat)
    (hfile : vol.volume * voxelSize.toNat ≤ file.bytes.length)
    (hsucceeds : ∀ i, file.succeeds i = true) :
    loadRawVolume mpi name (some file) dtype vol.ints dims.ints offset.ints =
      .ok (file.block voxelSize.toNat vol offset
          (dims.withLayers (layersRead voxelSize.toNat dims)) ++
        zeros ((dims.withLayers (dims.z - layersRead voxelSize.toNat dims)).volume *
          voxelSize.toNat)) := by
  obtain ⟨hw, hsize⟩ := voxelSizeOf_cases hdtype
  obtain ⟨p, hplan, hp⟩ := planChunks_eq h hw hsize
  have hle := layersRead_le voxelSize.toNat dims
  have hloop := hp.readChunks hmpi h hw hsize hlayer hfile hsucceeds
    (readCount voxelSize.toNat dims)
    ((dims.withLayers (dims.z - layersRead voxelSize.toNat dims)).volume * voxelSize.toNat)
    (Nat.zero_add _)
  have hnone : file.block voxelSize.toNat vol offset
      (dims.withLayers (0 * thickness voxelSize.toNat dims)) = [] := by
    rw [Nat.zero_mul]
    rfl
  have hall : (p.nVoxels * p.voxelSize).toNat =
      (dims.withLayers (layersRead voxelSize.toNat dims)).volume * voxelSize.toNat +
        (dims.withLayers (dims.z - layersRead voxelSize.toNat dims)).volume *
          voxelSize.toNat := by
    rw [UInt64.toNat_mul, hp.nVoxels, hp.voxelSize, Nat.mod_eq_of_lt h.memory, withLayers_volume,
      withLayers_volume, ← Nat.add_mul, ← Nat.add_mul, volume_layers, Nat.add_sub_cancel' hle]
  rw [hnone, List.nil_append] at hloop
  rw [loadRawVolume, hdtype, VolumeFault.ok_bind, hplan, VolumeFault.ok_bind]
  simp only [hp.nChunks, hall]
  exact hloop

/-- A layer that is too large for a read makes the first chunk empty. -/
theorem loadRawVolume_large (hmpi : mpi.Documented) (hdtype : voxelSizeOf dtype = .ok voxelSize)
    (h : BrickIn voxelSize.toNat vol dims offset)
    (hlayer : elementsPerRead voxelSize.toNat < dims.y * dims.x) (data : Bytes) :
    loadRawVolume mpi name (some file) dtype vol.ints dims.ints offset.ints ≠ .ok data := by
  obtain ⟨hw, hsize⟩ := voxelSizeOf_cases hdtype
  obtain ⟨p, hplan, hp⟩ := planChunks_eq h hw hsize
  have hmany : dims.z < readCount voxelSize.toNat dims := by
    refine Nat.lt_of_not_le (fun hle => ?_)
    exact absurd ((readCount_le_iff hsize h.positive).1 hle) (Nat.not_le.2 hlayer)
  obtain ⟨n, hn⟩ : ∃ n, readCount voxelSize.toNat dims = n + 1 :=
    ⟨readCount voxelSize.toNat dims - 1, by omega⟩
  have hthin : thickness voxelSize.toNat dims = 0 := Nat.div_eq_of_lt hmany
  have hdims := hp.chunkDims (i := 0) h (by omega)
  have hnone : ∀ (sizes starts : Vec3 ℤ),
      mpi.createSubarray sizes (dims.withLayers 0).ints starts = .error .invalidSubarray := by
    intro sizes starts
    refine hmpi.rejects _ _ _ ?_
    rintro ⟨-, -, hz, -⟩
    exact absurd hz (by simp [Vec3.withLayers, Vec3.ints])
  rw [loadRawVolume, hdtype, VolumeFault.ok_bind, hplan, VolumeFault.ok_bind]
  simp only [hp.nChunks, hn]
  rw [ChunkPlan.readChunks, ChunkPlan.readChunk]
  have hzero : UInt64.ofNat 0 = (0 : UInt64) := rfl
  rw [hthin] at hdims
  simp only [hdims]
  cases hcount : ChunkPlan.chunkVoxels (dims.withLayers 0).ints with
  | error e => exact fun hok => absurd hok (by simp [ofInts, VolumeFault.error_bind])
  | ok count =>
      rw [ofInts_ok, VolumeFault.ok_bind, hnone, VolumeFault.error_bind, VolumeFault.error_bind]
      exact fun hok => absurd hok (by simp)

end Load

end LibIS
