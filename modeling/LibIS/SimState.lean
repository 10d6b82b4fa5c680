import LibIS.Buffering
import LibIS.Common
import LibIS.Library.Receive
import Mathlib.Data.List.AList
import Mathlib.Data.Vector.Basic

set_option autoImplicit false

/-! # Simulation state and its transport (`is_simstate.h`, `is_simstate.cpp`)

The arrays, buffers and particles a simulation exposes, and their `send` / `recv` pairs. A sender is
the list of byte strings it hands to `InterComm::send`, in order; a receiver is a `RecvProg`, which
asks `InterComm::recv` for byte counts. The two sides share no code: the sizes a receiver asks for
are partly constants and partly lengths it has decoded from earlier messages. -/

open ByteCodec Receive

namespace LibIS

/-! ## Arrays -/

/-- The memory of the simulation process: what a borrowed pointer refers to. -/
abbrev Memory := UInt64 → UInt8

/-- `is::Array`: a vector of our own, or a pointer and byte count set by the simulation. -/
inductive DataArray where
  | owned (elemStride : UInt64) (array : Bytes)
  | borrowed (elemStride : UInt64) (array : UInt64) (arrayBytes : UInt64)
deriving DecidableEq

/-- `Array::numBytes`. -/
def DataArray.numBytes : DataArray → UInt64
  | .owned _ array => UInt64.ofNat array.length
  | .borrowed _ _ arrayBytes => arrayBytes

/-- `Array::stride`. -/
def DataArray.stride : DataArray → UInt64
  | .owned elemStride _ => elemStride
  | .borrowed elemStride _ _ => elemStride

/-- The `numBytes()` bytes at `data()`. -/
def DataArray.bytes (mem : Memory) : DataArray → Bytes
  | .owned _ array => array
  | .borrowed _ array arrayBytes =>
      (List.range arrayBytes.toNat).map (fun i => mem (array + UInt64.ofNat i))

/-- An array whose byte count is a `size_t`: all of them but an owned one of 2^64 bytes or more. -/
def DataArray.Sized : DataArray → Prop
  | .owned _ array => array.length < 2 ^ 64
  | .borrowed _ _ _ => True

theorem DataArray.bytes_length (mem : Memory) {a : DataArray} (h : a.Sized) :
    (a.bytes mem).length = a.numBytes.toNat := by
  cases a with
  | owned _ array =>
      simp only [DataArray.Sized] at h
      rw [DataArray.bytes, DataArray.numBytes, UInt64.toNat_ofNat', Nat.mod_eq_of_lt h]
  | borrowed _ _ arrayBytes => simp [DataArray.bytes, DataArray.numBytes]

/-! ## Buffers -/

/-- A `std::array<uint64_t, 3>`. -/
abbrev Dims := List.Vector UInt64 3

/-- `is::Buffer`. A buffer made by the default constructor has no array. -/
structure Buffer where
  name : StdString
  dataType : DType
  dims : Dims
  array : Option DataArray
deriving DecidableEq

/-- `operator<<` for `std::array<uint64_t, N>`: the raw overload, which writes the object memory. -/
def writeArrayRaw {n : ℕ} (v : List.Vector UInt64 n) : WriterM Unit :=
  WriteBuffer.write (v.toList.flatMap (fun x => leBytes 8 x.toNat))

/-- `operator>>` for `std::array<T, N>`: element by element. -/
def readArray {α : Type} (readElem : ReaderM α) : (n : ℕ) → ReaderM (List.Vector α n)
  | 0 => return List.Vector.nil
  | n + 1 => do
      let e ← readElem
      let es ← readArray readElem n
      return e ::ᵥ es

theorem parses_readArray {α : Type} {readElem : ReaderM α} {enc : α → Bytes} {n : ℕ}
    (v : List.Vector α n) (h : ∀ x, Parses readElem (enc x) x) :
    Parses (readArray readElem n) (v.toList.flatMap enc) v := by
  induction n with
  | zero =>
      rw [List.Vector.eq_nil v]
      exact Parses.pure _
  | succ n ih =>
      obtain ⟨x, w, rfl⟩ := v.exists_eq_cons
      rw [List.Vector.toList_cons, List.flatMap_cons]
      exact (h x).bind ((ih w).map (fun es => x ::ᵥ es))

/-- The header of `Buffer::send`: name, data type, dimensions, byte count, stride. -/
def Buffer.writeHeader (b : Buffer) (array : DataArray) : WriterM Unit := do
  writeString b.name
  writeUInt32 b.dataType.toUInt32
  writeArrayRaw b.dims
  writeUInt64 array.numBytes
  writeUInt64 array.stride

/-- What `Buffer::send` hands to `InterComm::send`: the header's size, the header, the data. -/
def Buffer.send (mem : Memory) (b : Buffer) : Except Fault (List Bytes) :=
  match b.array with
  | none => .error .nullPointer
  | some array => do
      let header ← serialize (b.writeHeader array)
      return [leBytes 8 header.length, header, array.bytes mem]

/-- The fields `Buffer::recv` decodes from the header. -/
structure BufferHeader where
  name : StdString
  dtype : UInt32
  dims : Dims
  nBytes : UInt64
  elemStride : UInt64

/-- The decoding of the header in `Buffer::recv`. -/
def Buffer.readHeader : ReaderM BufferHeader := do
  let name ← readString unlimited
  let dtype ← readUInt32
  let dims ← readArray readUInt64 3
  let nBytes ← readUInt64
  let elemStride ← readUInt64
  return ⟨name, dtype, dims, nBytes, elemStride⟩

/-- `Buffer::recv`. -/
def Buffer.recv : RecvProg Fault Buffer := do
  let headerSize ← Receive.recv 8
  let headerBuf ← Receive.recv (leValue headerSize)
  let header ← ofExcept (decodeHeader Buffer.readHeader headerBuf)
  let array ← Receive.recv header.nBytes.toNat
  return ⟨header.name, DType.ofUInt32 header.dtype, header.dims,
    some (.owned header.elemStride array)⟩

/-! ## Particles -/

/-- `is::Particles`. Particles made by the default constructor have no array. -/
structure Particles where
  numParticles : UInt64
  numGhost : UInt64
  array : Option DataArray
deriving DecidableEq

/-- `Particles::Particles()`. -/
def Particles.none : Particles := ⟨0, 0, Option.none⟩

/-- The header of `Particles::send`. -/
def Particles.writeHeader (p : Particles) (array : DataArray) : WriterM Unit := do
  writeUInt64 p.numParticles
  writeUInt64 p.numGhost
  writeUInt64 array.numBytes
  writeUInt64 array.stride

/-- What `Particles::send` hands to `InterComm::send`: the header, whose size is fixed and not sent,
    and the data. -/
def Particles.send (mem : Memory) (p : Particles) : Except Fault (List Bytes) :=
  match p.array with
  | .none => .error .nullPointer
  | some array => do
      let header ← serialize (p.writeHeader array)
      return [header, array.bytes mem]

/-- The fields `Particles::recv` decodes from the header. -/
structure ParticlesHeader where
  numParticles : UInt64
  numGhost : UInt64
  particleBytes : UInt64
  elemStride : UInt64

/-- The decoding of the header in `Particles::recv`. -/
def Particles.readHeader : ReaderM ParticlesHeader := do
  let numParticles ← readUInt64
  let numGhost ← readUInt64
  let particleBytes ← readUInt64
  let elemStride ← readUInt64
  return ⟨numParticles, numGhost, particleBytes, elemStride⟩

/-- `Particles::recv`; the header is 4 `uint64_t`. -/
def Particles.recv : RecvProg Fault Particles := do
  let headerBuf ← Receive.recv (4 * 8)
  let header ← ofExcept (decodeHeader Particles.readHeader headerBuf)
  let array ← Receive.recv header.particleBytes.toNat
  return ⟨header.numParticles, header.numGhost, some (.owned header.elemStride array)⟩

/-! ## The state and its header -/

/-- The `std::unordered_map` of buffers. Its iteration order is a permutation of the entries. -/
abbrev BufferMap := AList (fun _ : StdString => Buffer)

/-- `is::SimState`: the state a simulation fills in, and the region a client gets. -/
structure SimState where
  world : Box3 FloatBits
  localBox : Box3 FloatBits
  ghost : Box3 FloatBits
  simRank : Int32
  buffers : BufferMap
  particles : Particles

/-- A box of zero bits. -/
def zeroBox : Box3 FloatBits := ⟨⟨0, 0, 0⟩, ⟨0, 0, 0⟩⟩

/-- `SimState()`, value-initialized. -/
def SimState.empty : SimState := ⟨zeroBox, zeroBox, zeroBox, 0, ∅, Particles.none⟩

/-- `is::SimStateHeader`. -/
structure SimStateHeader where
  world : Box3 FloatBits
  localBox : Box3 FloatBits
  ghost : Box3 FloatBits
  simRank : UInt32
  numBuffers : UInt64
  hasParticles : UInt32
deriving DecidableEq

/-- `SimStateHeader::SimStateHeader(const SimState *)`. `hasParticles` is the particle count,
    narrowed to 32 bits. -/
def SimStateHeader.ofState (state : SimState) : SimStateHeader where
  world := state.world
  localBox := state.localBox
  ghost := state.ghost
  simRank := state.simRank.toUInt32
  numBuffers := UInt64.ofNat state.buffers.entries.length
  hasParticles := state.particles.numParticles.toUInt32

/-- The coordinates of a box in memory order. -/
def boxFields (b : Box3 FloatBits) : List ℕ :=
  [b.min.x.toNat, b.min.y.toNat, b.min.z.toNat, b.max.x.toNat, b.max.y.toNat, b.max.z.toNat]

/-- The fields of the packed header struct with their widths. -/
def SimStateHeader.fields (h : SimStateHeader) : List (ℕ × ℕ) :=
  (boxFields h.world ++ boxFields h.localBox ++ boxFields h.ghost).map (fun v => (4, v))
    ++ [(4, h.simRank.toNat), (8, h.numBuffers.toNat), (4, h.hasParticles.toNat)]

/-- The widths of the header's fields: 18 floats, then rank, buffer count and particle flag. -/
def SimStateHeader.widths : List ℕ :=
  List.replicate 18 4 ++ [4, 8, 4]

/-- `sizeof(SimStateHeader)`, packed. -/
def SimStateHeader.sizeof : ℕ :=
  SimStateHeader.widths.sum

/-- The object memory of a header. -/
def SimStateHeader.toBytes (h : SimStateHeader) : Bytes :=
  packedImage h.fields

/-- The box at position `i` of a list of field values. -/
def boxAt (vs : List ℕ) (i : ℕ) : Box3 FloatBits :=
  let f := fun j => UInt32.ofNat (vs.getD (i + j) 0)
  ⟨⟨f 0, f 1, f 2⟩, ⟨f 3, f 4, f 5⟩⟩

/-- The header whose object memory has been received. -/
def SimStateHeader.ofBytes (bs : Bytes) : SimStateHeader :=
  let vs := packedValues SimStateHeader.widths bs
  { world := boxAt vs 0
    localBox := boxAt vs 6
    ghost := boxAt vs 12
    simRank := UInt32.ofNat (vs.getD 18 0)
    numBuffers := UInt64.ofNat (vs.getD 19 0)
    hasParticles := UInt32.ofNat (vs.getD 20 0) }

theorem SimStateHeader.fields_widths (h : SimStateHeader) :
    h.fields.map Prod.fst = SimStateHeader.widths := rfl

theorem SimStateHeader.toBytes_length (h : SimStateHeader) :
    h.toBytes.length = SimStateHeader.sizeof := by
  rw [SimStateHeader.toBytes, packedImage_length, h.fields_widths, SimStateHeader.sizeof]

theorem SimStateHeader.fields_lt (h : SimStateHeader) : ∀ f ∈ h.fields, f.2 < 256 ^ f.1 := by
  have h32 : ∀ v : UInt32, v.toNat < 256 ^ 4 := fun v => v.toNat_lt
  have hbox : ∀ b : Box3 FloatBits, ∀ v ∈ boxFields b, v < 256 ^ 4 := by
    intro b v hv
    simp only [boxFields, List.mem_cons, List.not_mem_nil, or_false] at hv
    rcases hv with rfl | rfl | rfl | rfl | rfl | rfl <;> exact h32 _
  intro f hf
  simp only [SimStateHeader.fields, List.mem_append, List.mem_map, List.mem_cons,
    List.not_mem_nil, or_false] at hf
  rcases hf with ⟨v, (hv | hv) | hv, rfl⟩ | rfl | rfl | rfl
  · exact hbox _ v hv
  · exact hbox _ v hv
  · exact hbox _ v hv
  · exact h32 _
  · exact h.numBuffers.toNat_lt
  · exact h32 _

theorem SimStateHeader.ofBytes_toBytes (h : SimStateHeader) :
    SimStateHeader.ofBytes h.toBytes = h := by
  have hvs : packedValues SimStateHeader.widths h.toBytes = h.fields.map Prod.snd := by
    rw [← h.fields_widths]
    exact packedValues_packedImage h.fields h.fields_lt
  rw [SimStateHeader.ofBytes, hvs]
  simp [SimStateHeader.fields, boxAt, boxFields]

end LibIS
