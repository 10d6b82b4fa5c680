import LibIS.SimState

set_option autoImplicit false

/-! # Filling in a simulation state (`is_sim.cpp`, `libISMakeSimState` and `libISSet*`)

The setters, and the state after a sequence of calls. `SetCall.lastSome` is the specification of
"last set": every field of a built state is what the last call for it passed (`build_world` …
`build_lookup`), the buffers by name. -/

namespace LibIS

/-- `dtypeStride`. An invalid type fails the assertion; with assertions off it has stride 0. -/
def dtypeStride : DType → UInt64
  | .uint8 => 1
  | .float => 4
  | .double => 8
  | .invalid => 0

/-- The box of `libISMakeBox3f`: plus infinity below, minus infinity above. -/
def libISMakeBox3f : Box3 FloatBits :=
  ⟨⟨0x7F800000, 0x7F800000, 0x7F800000⟩, ⟨0xFF800000, 0xFF800000, 0xFF800000⟩⟩

/-- `libISMakeSimState` on the rank `simRank`. -/
def libISMakeSimState (simRank : Int32) : SimState :=
  { SimState.empty with
    world := libISMakeBox3f
    localBox := libISMakeBox3f
    ghost := libISMakeBox3f
    simRank := simRank }

/-- The `Buffer` of `libISSetField`: the byte count is the `uint64_t` product of the dimensions and
    the element stride. -/
def fieldBuffer (fieldName : StdString) (dimensions : Dims) (type : DType) (data : UInt64) :
    Buffer :=
  let elemStride := dtypeStride type
  ⟨fieldName, type, dimensions, some (.borrowed elemStride data
    (dimensions.get 0 * dimensions.get 1 * dimensions.get 2 * elemStride))⟩

/-- The `Buffer` of `libISSetBuffer`: bytes, in one dimension. -/
def bytesBuffer (bufferName : StdString) (size : UInt64) (data : UInt64) : Buffer :=
  ⟨bufferName, .uint8, ⟨[size, 1, 1], rfl⟩, some (.borrowed 1 data size)⟩

/-- The `Particles` of `libISSetParticles`. -/
def setParticles (numParticles numGhostParticles particleStride data : UInt64) : Particles :=
  ⟨numParticles, numGhostParticles, some (.borrowed particleStride data
    ((numParticles + numGhostParticles) * particleStride))⟩

/-- A call of one of the setters. -/
inductive SetCall where
  | worldBounds (box : Box3 FloatBits)
  | localBounds (box : Box3 FloatBits)
  | ghostBounds (box : Box3 FloatBits)
  | field (fieldName : StdString) (dimensions : Dims) (type : DType) (data : UInt64)
  | buffer (bufferName : StdString) (size : UInt64) (data : UInt64)
  | particles (numParticles numGhostParticles particleStride data : UInt64)

/-- What a setter does to the state. -/
def SetCall.apply (s : SimState) : SetCall → SimState
  | .worldBounds box => { s with world := box }
  | .localBounds box => { s with localBox := box }
  | .ghostBounds box => { s with ghost := box }
  | .field name dimensions type data =>
      { s with buffers := s.buffers.insert name (fieldBuffer name dimensions type data) }
  | .buffer name size data =>
      { s with buffers := s.buffers.insert name (bytesBuffer name size data) }
  | .particles numParticles numGhostParticles particleStride data =>
      { s with particles := setParticles numParticles numGhostParticles particleStride data }

/-- The state of rank `simRank` after the given calls. -/
def buildState (simRank : Int32) (calls : List SetCall) : SimState :=
  calls.foldl SetCall.apply (libISMakeSimState simRank)

/-! ## What a call sets -/

/-- The world bounds a call sets, if it is a call for them. -/
def SetCall.world? : SetCall → Option (Box3 FloatBits)
  | .worldBounds box => some box
  | _ => none

/-- The local bounds a call sets. -/
def SetCall.local? : SetCall → Option (Box3 FloatBits)
  | .localBounds box => some box
  | _ => none

/-- The ghost bounds a call sets. -/
def SetCall.ghost? : SetCall → Option (Box3 FloatBits)
  | .ghostBounds box => some box
  | _ => none

/-- The buffer a call sets under `name`, as a field or as a plain buffer. -/
def SetCall.buffer? (name : StdString) : SetCall → Option Buffer
  | .field n dimensions type data =>
      if n = name then some (fieldBuffer n dimensions type data) else none
  | .buffer n size data => if n = name then some (bytesBuffer n size data) else none
  | _ => none

/-- The particles a call sets. -/
def SetCall.particles? : SetCall → Option Particles
  | .particles numParticles numGhostParticles particleStride data =>
      some (setParticles numParticles numGhostParticles particleStride data)
  | _ => none

/-- What the last of the calls that set something set. -/
def SetCall.lastSome {α : Type} (f : SetCall → Option α) (calls : List SetCall) : Option α :=
  calls.reverse.findSome? f

theorem SetCall.lastSome_concat {α : Type} (f : SetCall → Option α) (calls : List SetCall)
    (c : SetCall) :
    SetCall.lastSome f (calls ++ [c]) = (f c).or (SetCall.lastSome f calls) := by
  simp only [SetCall.lastSome, List.reverse_append, List.reverse_cons, List.reverse_nil,
    List.nil_append, List.singleton_append, List.findSome?_cons]
  cases f c <;> rfl

/-- Calls that set nothing new leave the last setting. -/
theorem SetCall.lastSome_append_of_none {α : Type} (f : SetCall → Option α)
    (calls later : List SetCall) (h : ∀ c ∈ later, f c = none) :
    SetCall.lastSome f (calls ++ later) = SetCall.lastSome f calls := by
  have hnone : later.reverse.findSome? f = none := by
    rw [List.findSome?_eq_none_iff]
    exact fun c hc => h c (List.mem_reverse.1 hc)
  rw [SetCall.lastSome, List.reverse_append, List.findSome?_append, hnone, Option.none_or]
  rfl

/-- A part of the state that each call either sets or leaves is what the last call set. -/
theorem foldl_apply_eq_last {α : Type} (proj : SimState → α) (f : SetCall → Option α)
    (h : ∀ s c, proj (c.apply s) = (f c).getD (proj s)) (s : SimState) (calls : List SetCall) :
    proj (calls.foldl SetCall.apply s) = (SetCall.lastSome f calls).getD (proj s) := by
  induction calls using List.reverseRecOn with
  | nil => rfl
  | append_singleton calls c ih =>
      rw [List.foldl_append, List.foldl_cons, List.foldl_nil, h, ih, SetCall.lastSome_concat]
      cases f c <;> rfl

section Build

variable (simRank : Int32) (calls : List SetCall)

theorem build_world :
    (buildState simRank calls).world =
      (SetCall.lastSome SetCall.world? calls).getD libISMakeBox3f :=
  foldl_apply_eq_last SimState.world SetCall.world? (fun s c => by cases c <;> rfl) _ calls

theorem build_localBox :
    (buildState simRank calls).localBox =
      (SetCall.lastSome SetCall.local? calls).getD libISMakeBox3f :=
  foldl_apply_eq_last SimState.localBox SetCall.local? (fun s c => by cases c <;> rfl) _ calls

theorem build_ghost :
    (buildState simRank calls).ghost =
      (SetCall.lastSome SetCall.ghost? calls).getD libISMakeBox3f :=
  foldl_apply_eq_last SimState.ghost SetCall.ghost? (fun s c => by cases c <;> rfl) _ calls

theorem build_particles :
    (buildState simRank calls).particles =
      (SetCall.lastSome SetCall.particles? calls).getD Particles.none :=
  foldl_apply_eq_last SimState.particles SetCall.particles? (fun s c => by cases c <;> rfl) _ calls

theorem build_simRank : (buildState simRank calls).simRank = simRank := by
  have h := foldl_apply_eq_last SimState.simRank (fun _ => none)
    (fun s c => by cases c <;> rfl) (libISMakeSimState simRank) calls
  have hnone : SetCall.lastSome (fun _ => (none : Option Int32)) calls = none := by
    simp [SetCall.lastSome]
  rw [hnone] at h
  exact h

theorem lookup_apply (name : StdString) (s : SimState) (c : SetCall) :
    (c.apply s).buffers.lookup name =
      ((c.buffer? name).map some).getD (s.buffers.lookup name) := by
  cases c with
  | field n dimensions type data =>
      by_cases hn : n = name
      · subst hn; simp [SetCall.apply, SetCall.buffer?]
      · rw [SetCall.apply, AList.lookup_insert_ne (fun h => hn h.symm)]
        simp [SetCall.buffer?, hn]
  | buffer n size data =>
      by_cases hn : n = name
      · subst hn; simp [SetCall.apply, SetCall.buffer?]
      · rw [SetCall.apply, AList.lookup_insert_ne (fun h => hn h.symm)]
        simp [SetCall.buffer?, hn]
  | _ => rfl

/-- Under every name, the map holds the buffer of the last call for that name. -/
theorem build_lookup (name : StdString) :
    (buildState simRank calls).buffers.lookup name =
      SetCall.lastSome (SetCall.buffer? name) calls := by
  have h := foldl_apply_eq_last (fun s => s.buffers.lookup name)
    (fun c => (c.buffer? name).map some) (lookup_apply name) (libISMakeSimState simRank) calls
  have hmap : SetCall.lastSome (fun c => (c.buffer? name).map some) calls =
      (SetCall.lastSome (SetCall.buffer? name) calls).map some := by
    simp only [SetCall.lastSome, List.map_findSome?]
    rfl
  rw [hmap] at h
  rw [buildState, h]
  cases SetCall.lastSome (SetCall.buffer? name) calls <;> rfl

end Build

/-- A buffer in the map is stored under its own name, and has an array. -/
theorem build_entry (simRank : Int32) (calls : List SetCall) (name : StdString) (b : Buffer)
    (h : (buildState simRank calls).buffers.lookup name = some b) :
    b.name = name ∧ ∃ stride data n, b.array = some (.borrowed stride data n) := by
  rw [build_lookup] at h
  obtain ⟨c, -, hc⟩ := List.exists_of_findSome?_eq_some h
  cases c with
  | field n dimensions type data =>
      simp only [SetCall.buffer?, Option.ite_none_right_eq_some, Option.some.injEq] at hc
      obtain ⟨rfl, rfl⟩ := hc
      exact ⟨rfl, _, _, _, rfl⟩
  | buffer n size data =>
      simp only [SetCall.buffer?, Option.ite_none_right_eq_some, Option.some.injEq] at hc
      obtain ⟨rfl, rfl⟩ := hc
      exact ⟨rfl, _, _, _, rfl⟩
  | worldBounds box => exact absurd hc (by simp [SetCall.buffer?])
  | localBounds box => exact absurd hc (by simp [SetCall.buffer?])
  | ghostBounds box => exact absurd hc (by simp [SetCall.buffer?])
  | particles np ng stride data => exact absurd hc (by simp [SetCall.buffer?])

end LibIS
