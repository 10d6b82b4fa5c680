import LibIS.Sim.Setters

set_option autoImplicit false

/-! # The transfer of one region (`handleQuery` against one iteration of `query`)

The sends of `ConnectionManager::handleQuery` and the receives of one region iteration of
`SimulationConnection::query`. For any state built by the setters and any iteration order of its
map, the receiver asks for exactly the messages the sender produces and ends with the region
`Snapshot.region` (`Snapshot.reads`); everything else follows from that one fact. -/

open ByteCodec Receive

namespace LibIS

/-! ## The two sides -/

/-- The loop over the buffers in `handleQuery`, in the order the map is iterated. -/
def sendBuffers (mem : Memory) : List (Sigma fun _ : StdString => Buffer) →
    Except Fault (List Bytes)
  | [] => .ok []
  | buf :: bufs => do
      let msgs ← buf.2.send mem
      let rest ← sendBuffers mem bufs
      return msgs ++ rest

/-- The sends of `ConnectionManager::handleQuery` to the client that asked. -/
def handleQuerySends (mem : Memory) (order : List (Sigma fun _ : StdString => Buffer))
    (state : SimState) : Except Fault (List Bytes) := do
  let header := SimStateHeader.ofState state
  let buffers ← sendBuffers mem order
  if header.hasParticles ≠ 0 then
    let particles ← state.particles.send mem
    return header.toBytes :: (buffers ++ particles)
  else
    return header.toBytes :: buffers

/-- The loop over the buffers of a region in `query`. -/
def recvBuffers : ℕ → SimState → RecvProg Fault SimState
  | 0, r => return r
  | f + 1, r => do
      let buf ← Buffer.recv
      recvBuffers f { r with buffers := r.buffers.insert buf.name buf }

/-- A region with the header's bounds and rank, before its buffers and particles arrive. -/
def SimStateHeader.region (header : SimStateHeader) : SimState :=
  { SimState.empty with
    world := header.world
    localBox := header.localBox
    ghost := header.ghost
    simRank := header.simRank.toInt32 }

/-- What `query` receives after the header. -/
def recvContents (header : SimStateHeader) : RecvProg Fault SimState := do
  let r ← recvBuffers header.numBuffers.toNat header.region
  if header.hasParticles ≠ 0 then
    let particles ← Particles.recv
    return { r with particles := particles }
  else
    return r

/-- The receives of one region iteration of `SimulationConnection::query`. -/
def recvRegion : RecvProg Fault SimState := do
  let headerBytes ← Receive.recv SimStateHeader.sizeof
  recvContents (SimStateHeader.ofBytes headerBytes)

theorem reads_recvRegion (header : SimStateHeader) {msgs : List Bytes} {region : SimState}
    (h : Reads (recvContents header) msgs region) :
    Reads recvRegion (header.toBytes :: msgs) region := by
  refine Reads.recv_bind header.toBytes_length ?_
  rw [header.ofBytes_toBytes]
  exact h

/-! ## What arrives -/

/-- The client's copy of an array: a vector of its own. -/
def DataArray.received (mem : Memory) (a : DataArray) : DataArray :=
  .owned a.stride (a.bytes mem)

/-- The client's copy of a buffer. -/
def Buffer.received (mem : Memory) (b : Buffer) : Buffer :=
  { b with array := b.array.map (DataArray.received mem) }

/-- The client's copy of the particles. -/
def Particles.received (mem : Memory) (p : Particles) : Particles :=
  { p with array := p.array.map (DataArray.received mem) }

/-- The header message of a buffer. -/
def Buffer.headerBytes (b : Buffer) (a : DataArray) : Bytes :=
  stringBytes b.name ++ (leBytes 4 b.dataType.toUInt32.toNat ++
    (b.dims.toList.flatMap (fun x => leBytes 8 x.toNat) ++
      (leBytes 8 a.numBytes.toNat ++ leBytes 8 a.stride.toNat)))

/-- The header message of the particles. -/
def Particles.headerBytes (p : Particles) (a : DataArray) : Bytes :=
  leBytes 8 p.numParticles.toNat ++ (leBytes 8 p.numGhost.toNat ++
    (leBytes 8 a.numBytes.toNat ++ leBytes 8 a.stride.toNat))

theorem flatMap_leBytes_length (w : ℕ) (xs : List UInt64) :
    (xs.flatMap (fun x => leBytes w x.toNat)).length = w * xs.length := by
  induction xs with
  | nil => rfl
  | cons x xs ih =>
      rw [List.flatMap_cons, List.length_append, ih, leBytes_length, List.length_cons]
      ring

theorem Buffer.headerBytes_length (b : Buffer) (a : DataArray) :
    (b.headerBytes a).length = 52 + b.name.bytes.length := by
  simp only [Buffer.headerBytes, List.length_append, stringBytes_length, leBytes_length,
    flatMap_leBytes_length, List.Vector.toList_length]
  omega

theorem Buffer.headerBytes_lt (b : Buffer) (a : DataArray) :
    (b.headerBytes a).length < 2 ^ 63 := by
  have hname := b.name.size_lt
  rw [Buffer.headerBytes_length]
  omega

@[simp] theorem Particles.headerBytes_length (p : Particles) (a : DataArray) :
    (p.headerBytes a).length = 32 := by
  simp [Particles.headerBytes]

theorem Buffer.serialize_header (b : Buffer) (a : DataArray) :
    serialize (b.writeHeader a) = .ok (b.headerBytes a) := by
  refine serialize_of_emits ?_ (b.headerBytes_lt a)
  have hdims : Emits (writeArrayRaw b.dims) (b.dims.toList.flatMap (fun x => leBytes 8 x.toNat)) :=
    emits_write _
  exact (emits_writeString b.name).seq ((emits_writeUInt32 _).seq
    (hdims.seq ((emits_writeUInt64 _).seq (emits_writeUInt64 _))))

theorem Particles.serialize_header (p : Particles) (a : DataArray) :
    serialize (p.writeHeader a) = .ok (p.headerBytes a) := by
  refine serialize_of_emits ?_ (by simp)
  exact (emits_writeUInt64 _).seq ((emits_writeUInt64 _).seq
    ((emits_writeUInt64 _).seq (emits_writeUInt64 _)))

theorem Buffer.size_header (b : Buffer) (a : DataArray) :
    leValue (leBytes 8 (b.headerBytes a).length) = (b.headerBytes a).length := by
  have hlt := b.headerBytes_lt a
  exact leValue_leBytes_of_lt _ _ (by norm_num; omega)

theorem Buffer.send_eq (mem : Memory) {b : Buffer} {a : DataArray} (ha : b.array = some a) :
    b.send mem = .ok [leBytes 8 (b.headerBytes a).length, b.headerBytes a, a.bytes mem] := by
  simp only [Buffer.send, ha, b.serialize_header a]
  rfl

theorem Particles.send_eq (mem : Memory) {p : Particles} {a : DataArray} (ha : p.array = some a) :
    p.send mem = .ok [p.headerBytes a, a.bytes mem] := by
  simp only [Particles.send, ha, p.serialize_header a]
  rfl

theorem Buffer.parses_header (b : Buffer) (a : DataArray) :
    Parses Buffer.readHeader (b.headerBytes a)
      ⟨b.name, b.dataType.toUInt32, b.dims, a.numBytes, a.stride⟩ := by
  have hname : Parses (readString unlimited) (stringBytes b.name) b.name :=
    parses_readString b.name (fun _ => rfl)
  have hdims := parses_readArray b.dims parses_readUInt64
  refine hname.bind ?_
  refine (parses_readUInt32 _).bind ?_
  refine hdims.bind ?_
  refine (parses_readUInt64 a.numBytes).bind ?_
  exact (parses_readUInt64 a.stride).map _

theorem Particles.parses_header (p : Particles) (a : DataArray) :
    Parses Particles.readHeader (p.headerBytes a)
      ⟨p.numParticles, p.numGhost, a.numBytes, a.stride⟩ := by
  refine (parses_readUInt64 _).bind ?_
  refine (parses_readUInt64 _).bind ?_
  refine (parses_readUInt64 a.numBytes).bind ?_
  exact (parses_readUInt64 a.stride).map _

theorem Buffer.reads_recv (mem : Memory) (b : Buffer) {a : DataArray} (ha : b.array = some a)
    (hsized : a.Sized) :
    ∃ msgs, b.send mem = .ok msgs ∧ Reads Buffer.recv msgs (b.received mem) := by
  have hlt := b.headerBytes_lt a
  refine ⟨_, Buffer.send_eq mem ha, ?_⟩
  refine Reads.recv_bind (leBytes_length _ _) (Reads.recv_bind (b.size_header a).symm ?_)
  rw [decodeHeader_of_parses (b.parses_header a) (by omega)]
  refine Reads.recv_bind (a.bytes_length mem hsized) ?_
  have hret : b.received mem = ⟨b.name, DType.ofUInt32 b.dataType.toUInt32, b.dims,
      some (.owned a.stride (a.bytes mem))⟩ := by
    simp [Buffer.received, ha, DataArray.received]
  rw [hret]
  exact .ret _

theorem Particles.reads_recv (mem : Memory) (p : Particles) {a : DataArray} (ha : p.array = some a)
    (hsized : a.Sized) :
    ∃ msgs, p.send mem = .ok msgs ∧ Reads Particles.recv msgs (p.received mem) := by
  refine ⟨_, Particles.send_eq mem ha, ?_⟩
  refine Reads.recv_bind (p.headerBytes_length a) ?_
  rw [decodeHeader_of_parses (p.parses_header a) (by simp)]
  refine Reads.recv_bind (a.bytes_length mem hsized) ?_
  have hret : p.received mem = ⟨p.numParticles, p.numGhost,
      some (.owned a.stride (a.bytes mem))⟩ := by
    simp [Particles.received, ha, DataArray.received]
  rw [hret]
  exact .ret _

/-! ## The buffers of a region -/

/-- The map the client ends with when it receives the given entries in order. -/
def receivedBuffers (mem : Memory) (order : List (Sigma fun _ : StdString => Buffer))
    (m : BufferMap) : BufferMap :=
  order.foldl (fun m e => m.insert e.2.name (e.2.received mem)) m

/-- The entries of a built map: stored under their own names, with sized arrays. -/
def Sendable (order : List (Sigma fun _ : StdString => Buffer)) : Prop :=
  ∀ e ∈ order, e.2.name = e.1 ∧ ∃ a, e.2.array = some a ∧ a.Sized

theorem reads_recvBuffers (mem : Memory) (order : List (Sigma fun _ : StdString => Buffer))
    (h : Sendable order) (r : SimState) :
    ∃ msgs, sendBuffers mem order = .ok msgs ∧
      Reads (recvBuffers order.length r) msgs
        { r with buffers := receivedBuffers mem order r.buffers } := by
  induction order generalizing r with
  | nil => exact ⟨[], rfl, .ret r⟩
  | cons e es ih =>
      obtain ⟨hname, a, ha, hsized⟩ := h e (List.mem_cons_self ..)
      obtain ⟨msgs, hsend, hreads⟩ := e.2.reads_recv mem ha hsized
      obtain ⟨rest, hrest, hreadsRest⟩ := ih (fun x hx => h x (List.mem_cons_of_mem _ hx))
        { r with buffers := r.buffers.insert e.2.name (e.2.received mem) }
      refine ⟨msgs ++ rest, ?_, hreads.bind hreadsRest⟩
      rw [sendBuffers, hsend, hrest]
      rfl

/-- With one entry for each name, the client's map holds the copy of the entry for each name, in
    whichever order the entries came. -/
theorem receivedBuffers_lookup (mem : Memory) (order : List (Sigma fun _ : StdString => Buffer))
    (h : Sendable order) (hnodup : order.NodupKeys) (m : BufferMap) (name : StdString) :
    (receivedBuffers mem order m).lookup name =
      ((order.dlookup name).map (Buffer.received mem)).or (m.lookup name) := by
  induction order generalizing m with
  | nil => rfl
  | cons e es ih =>
      obtain ⟨hname, -⟩ := h e (List.mem_cons_self ..)
      obtain ⟨hnotin, hnodup'⟩ := List.nodupKeys_cons.1 hnodup
      have hstep := ih (fun x hx => h x (List.mem_cons_of_mem _ hx)) hnodup'
        (m.insert e.2.name (e.2.received mem))
      rw [receivedBuffers, List.foldl_cons]
      rw [receivedBuffers] at hstep
      rw [hstep]
      obtain ⟨key, b⟩ := e
      simp only at hname hnotin ⊢
      by_cases hkey : name = key
      · subst hkey
        have hnone : es.dlookup name = none := List.dlookup_eq_none.2 hnotin
        rw [hnone, List.dlookup_cons_eq, hname, AList.lookup_insert]
        rfl
      · rw [List.dlookup_cons_ne _ _ hkey, hname, AList.lookup_insert_ne hkey]

/-! ## Snapshots -/

/-- What a rank passes to `libISProcess`: a state built by the setters, the memory its pointers
    refer to, and the order in which the map happens to be iterated. The map's size is a
    `size_t`. -/
structure Snapshot (simRank : Int32) where
  calls : List SetCall
  mem : Memory
  order : List (Sigma fun _ : StdString => Buffer)
  iterates : order.Perm (buildState simRank calls).buffers.entries
  size_lt : order.length < 2 ^ 64

namespace Snapshot

theorem noBuffers_iterates : ([] : List (Sigma fun _ : StdString => Buffer)).Perm [] :=
  List.Perm.refl _

theorem noBuffers_lt : ([] : List (Sigma fun _ : StdString => Buffer)).length < 2 ^ 64 := by decide

variable {simRank : Int32} (q : Snapshot simRank)

/-- The state the snapshot was taken of. -/
def state : SimState :=
  buildState simRank q.calls

/-- The messages `handleQuery` sends for the snapshot. -/
def sends : Except Fault (List Bytes) :=
  handleQuerySends q.mem q.order q.state

/-- The particles of the region: sent when the header's flag is not zero. -/
def regionParticles : Particles :=
  if (SimStateHeader.ofState q.state).hasParticles ≠ 0 then q.state.particles.received q.mem
  else Particles.none

/-- The region a client gets for the snapshot. -/
def region : SimState where
  world := q.state.world
  localBox := q.state.localBox
  ghost := q.state.ghost
  simRank := simRank
  buffers := receivedBuffers q.mem q.order ∅
  particles := q.regionParticles

theorem nodupKeys : q.order.NodupKeys :=
  (List.perm_nodupKeys q.iterates).2 q.state.buffers.nodupKeys

theorem dlookup_order (name : StdString) :
    q.order.dlookup name = SetCall.lastSome (SetCall.buffer? name) q.calls := by
  rw [List.perm_dlookup name q.nodupKeys q.iterates]
  exact build_lookup simRank q.calls name

theorem sendable : Sendable q.order := by
  intro e he
  have hlookup : q.order.dlookup e.1 = some e.2 := List.mem_dlookup q.nodupKeys he
  rw [q.dlookup_order, ← build_lookup simRank] at hlookup
  obtain ⟨hname, stride, data, n, harray⟩ := build_entry simRank q.calls e.1 e.2 hlookup
  exact ⟨hname, _, harray, trivial⟩

/-- Particles the header announces have been set, so there is an array to send. -/
theorem particles_array (h : (SimStateHeader.ofState q.state).hasParticles ≠ 0) :
    ∃ a, q.state.particles.array = some a ∧ a.Sized := by
  have hbuild := build_particles simRank q.calls
  cases hlast : SetCall.lastSome SetCall.particles? q.calls with
  | none =>
      rw [hlast] at hbuild
      refine absurd ?_ h
      simp only [SimStateHeader.ofState, state, hbuild, Option.getD_none, Particles.none]
      rfl
  | some p =>
      obtain ⟨c, -, hc⟩ := List.exists_of_findSome?_eq_some hlast
      rw [hlast, Option.getD_some] at hbuild
      cases c with
      | particles np ng stride data =>
          simp only [SetCall.particles?, Option.some.injEq] at hc
          subst hc
          refine ⟨.borrowed stride data ((np + ng) * stride), ?_, True.intro⟩
          rw [state, hbuild]
          rfl
      | _ => exact absurd hc (by simp [SetCall.particles?])

/-- The messages of a snapshot can be sent, and the receiver reads exactly them and ends with the
    region. -/
theorem reads : ∃ msgs, q.sends = .ok msgs ∧ msgs ≠ [] ∧ Reads recvRegion msgs q.region := by
  have hnum : (SimStateHeader.ofState q.state).numBuffers.toNat = q.order.length := by
    have hlen := q.iterates.length_eq
    simp only [SimStateHeader.ofState, state, ← hlen]
    rw [UInt64.toNat_ofNat', Nat.mod_eq_of_lt q.size_lt]
  have hstart : (SimStateHeader.ofState q.state).region =
      { q.region with buffers := ∅, particles := Particles.none } := by
    have hrank : (SimStateHeader.ofState q.state).simRank.toInt32 = simRank := by
      simp only [SimStateHeader.ofState, state, build_simRank]
      exact Int32.toInt32_toUInt32 _
    simp only [SimStateHeader.region, hrank]
    rfl
  obtain ⟨bufs, hbufs, hreadsBufs⟩ := reads_recvBuffers q.mem q.order q.sendable
    { q.region with buffers := ∅, particles := Particles.none }
  by_cases hflag : (SimStateHeader.ofState q.state).hasParticles ≠ 0
  · obtain ⟨a, ha, hsized⟩ := q.particles_array hflag
    obtain ⟨parts, hparts, hreadsParts⟩ := q.state.particles.reads_recv q.mem ha hsized
    have hregion : q.region = { q.region with particles := q.state.particles.received q.mem } := by
      simp only [region, regionParticles, if_pos hflag]
    refine ⟨(SimStateHeader.ofState q.state).toBytes :: (bufs ++ parts), ?_, by simp,
      reads_recvRegion _ ?_⟩
    · simp only [sends, handleQuerySends, hbufs, if_pos hflag, hparts]
      rfl
    · rw [recvContents, hnum, hstart]
      refine hreadsBufs.bind ?_
      rw [if_pos hflag, hregion, ← List.append_nil parts]
      exact hreadsParts.bind (.ret _)
  · have hregion : q.region = { q.region with particles := Particles.none } := by
      simp only [region, regionParticles, if_neg hflag]
    refine ⟨(SimStateHeader.ofState q.state).toBytes :: bufs, ?_, by simp,
      reads_recvRegion _ ?_⟩
    · simp only [sends, handleQuerySends, hbufs, if_neg hflag]
      rfl
    · rw [recvContents, hnum, hstart, ← List.append_nil bufs]
      refine hreadsBufs.bind ?_
      rw [if_neg hflag, hregion]
      exact .ret _

/-- The messages of a snapshot. -/
def messages : List Bytes :=
  match q.sends with
  | .ok msgs => msgs
  | .error _ => []

theorem sends_eq : q.sends = .ok q.messages := by
  obtain ⟨msgs, hsends, -⟩ := q.reads
  rw [messages, hsends]

theorem reads_messages : Reads recvRegion q.messages q.region := by
  obtain ⟨msgs, hsends, -, hreads⟩ := q.reads
  rw [messages, hsends]
  exact hreads

/-- The messages start with a header, and the rest is read by what follows it. -/
theorem messages_header : ∃ header rest, q.messages = header :: rest ∧
    header.length = SimStateHeader.sizeof ∧
    Reads (recvContents (SimStateHeader.ofBytes header)) rest q.region := by
  have hreads := q.reads_messages
  cases hmsgs : q.messages with
  | nil =>
      rw [hmsgs] at hreads
      exact absurd hreads.nil_inv (by simp [recvRegion])
  | cons header rest =>
      rw [hmsgs, recvRegion, Receive.recv_bind] at hreads
      exact ⟨header, rest, rfl, hreads.recv_inv.1, hreads.recv_inv.2⟩

theorem region_lookup (name : StdString) :
    q.region.buffers.lookup name =
      (SetCall.lastSome (SetCall.buffer? name) q.calls).map (Buffer.received q.mem) := by
  rw [region, receivedBuffers_lookup q.mem q.order q.sendable q.nodupKeys, q.dlookup_order]
  simp

end Snapshot

/-! ## Delivery -/

/-- The client's array `r` has the stride, byte count and bytes of the simulation's array `a`. -/
structure SameArray (mem : Memory) (a r : DataArray) : Prop where
  stride : r.stride = a.stride
  numBytes : r.numBytes = a.numBytes
  bytes : ∀ clientMem, r.bytes clientMem = a.bytes mem

/-- The client's buffer `r` is the simulation's buffer `b`. -/
structure SameBuffer (mem : Memory) (b r : Buffer) : Prop where
  name : r.name = b.name
  dataType : r.dataType = b.dataType
  dims : r.dims = b.dims
  array : ∃ a c, b.array = some a ∧ r.array = some c ∧ SameArray mem a c

/-- The client's particles `r` are the simulation's particles `p`. -/
structure SameParticles (mem : Memory) (p r : Particles) : Prop where
  numParticles : r.numParticles = p.numParticles
  numGhost : r.numGhost = p.numGhost
  array : ∃ a c, p.array = some a ∧ r.array = some c ∧ SameArray mem a c

theorem DataArray.same_received (mem : Memory) {a : DataArray} (h : a.Sized) :
    SameArray mem a (a.received mem) where
  stride := rfl
  numBytes := by
    rw [DataArray.received, DataArray.numBytes, a.bytes_length mem h, UInt64.ofNat_toNat]
  bytes _ := rfl

theorem Buffer.same_received (mem : Memory) {b : Buffer} {a : DataArray} (ha : b.array = some a)
    (h : a.Sized) : SameBuffer mem b (b.received mem) where
  name := rfl
  dataType := rfl
  dims := rfl
  array := ⟨a, a.received mem, ha, by simp [Buffer.received, ha], DataArray.same_received mem h⟩

theorem Particles.same_received (mem : Memory) {p : Particles} {a : DataArray}
    (ha : p.array = some a) (h : a.Sized) : SameParticles mem p (p.received mem) where
  numParticles := rfl
  numGhost := rfl
  array := ⟨a, a.received mem, ha, by simp [Particles.received, ha], DataArray.same_received mem h⟩

/-- **Region transfer.** Whatever was set, in whatever order, and however the map is iterated, the
    sends of `handleQuery` and the receives of one region iteration of `query` match one for one,
    on a message channel and on a byte stream, with nothing left over; the region has the last-set
    bounds, the rank, under every name the buffer of the last call for it, and the particles
    whenever the header announces some. -/
theorem region_transfer (simRank : Int32) (q : Snapshot simRank) :
    ∃ (msgs : List Bytes) (region : SimState), q.sends = .ok msgs ∧
      (∀ later, run recvMessage recvRegion (msgs ++ later) =
        (msgs.map List.length, later, some (.ok region))) ∧
      (∀ later, run recvBytes recvRegion (msgs.flatten ++ later) =
        (msgs.map List.length, later, some (.ok region))) ∧
      region.world = (SetCall.lastSome SetCall.world? q.calls).getD libISMakeBox3f ∧
      region.localBox = (SetCall.lastSome SetCall.local? q.calls).getD libISMakeBox3f ∧
      region.ghost = (SetCall.lastSome SetCall.ghost? q.calls).getD libISMakeBox3f ∧
      region.simRank = simRank ∧
      (∀ name, Option.Rel (SameBuffer q.mem) (SetCall.lastSome (SetCall.buffer? name) q.calls)
        (region.buffers.lookup name)) ∧
      ((SimStateHeader.ofState q.state).hasParticles ≠ 0 →
        ∃ p, SetCall.lastSome SetCall.particles? q.calls = some p ∧
          SameParticles q.mem p region.particles) := by
  obtain ⟨msgs, hsends, -, hreads⟩ := q.reads
  refine ⟨msgs, q.region, hsends, hreads.run_messages, hreads.run_stream,
    build_world simRank q.calls, build_localBox simRank q.calls, build_ghost simRank q.calls, rfl,
    ?_, ?_⟩
  · intro name
    rw [q.region_lookup]
    cases hlast : SetCall.lastSome (SetCall.buffer? name) q.calls with
    | none => exact .none
    | some b =>
        obtain ⟨-, stride, data, n, harray⟩ :=
          build_entry simRank q.calls name b (by rw [build_lookup, hlast])
        exact .some (Buffer.same_received q.mem harray trivial)
  · intro hflag
    obtain ⟨a, ha, hsized⟩ := q.particles_array hflag
    have hbuild := build_particles simRank q.calls
    cases hlast : SetCall.lastSome SetCall.particles? q.calls with
    | none =>
        rw [hlast] at hbuild
        rw [Snapshot.state, hbuild] at ha
        exact absurd ha (by simp [Particles.none])
    | some p =>
        rw [hlast, Option.getD_some] at hbuild
        rw [Snapshot.state, hbuild] at ha
        refine ⟨p, rfl, ?_⟩
        have hregion : q.region.particles = p.received q.mem := by
          rw [Snapshot.region, Snapshot.regionParticles, if_pos hflag, Snapshot.state, hbuild]
        rw [hregion]
        exact Particles.same_received q.mem ha hsized

end LibIS
