import LibIS.RegionTransfer

set_option autoImplicit false

/-! # Transport over MPI (`intercomm.cpp`, `MPIInterComm`)

`MPIInterComm::send` and `recv` pass their `size_t` byte count as the `int` count of `MPI_Send` and
`MPI_Recv` and ignore the error code. Below 2^31 bytes nothing is lost. From there on the sender
drops the bytes past the narrowed count and the receiver keeps the zeros its buffer was made with,
so what arrives is the array with its tail zeroed. -/

open ByteCodec Receive

namespace LibIS

/-- A `size_t` passed as an `int` count: reduced modulo 2^32, to a signed value. -/
def mpiCount (size : UInt64) : Int :=
  size.toUInt32.toInt32.toInt

namespace MPIInterComm

/-- `MPIInterComm::send`, on the messages under way to the receiver. A negative count sends
    nothing. -/
def send (data : Bytes) (channel : List Bytes) : List Bytes :=
  let count := mpiCount (UInt64.ofNat data.length)
  if 0 ≤ count then channel ++ [data.take count.toNat] else channel

/-- `MPIInterComm::recv` into a zero-filled buffer of `size` bytes. A negative count stores nothing
    and takes no message; of a message longer than the count the first bytes are stored. -/
def recv (size : ℕ) (channel : List Bytes) : Option (Bytes × List Bytes) :=
  let count := mpiCount (UInt64.ofNat size)
  if 0 ≤ count then
    match channel with
    | [] => none
    | m :: ms =>
        let stored := m.take count.toNat
        some (stored ++ zeros (size - stored.length), ms)
  else
    some (zeros size, channel)

/-- Send with one of the `send` functions and receive with one of the `recv` functions. -/
def transfer {α : Type} (sends : Except Fault (List Bytes)) (receiver : RecvProg Fault α) :
    Option α :=
  match sends with
  | .error _ => none
  | .ok msgs =>
      match (run MPIInterComm.recv receiver (msgs.foldl (fun q m => send m q) [])).2.2 with
      | some (.ok a) => some a
      | _ => none

end MPIInterComm

/-- The received array `r` equals the array `a` byte for byte. -/
def SameBytes (mem : Memory) (a : DataArray) (r : Option DataArray) : Prop :=
  ∃ c, r = some c ∧ ∀ clientMem, c.bytes clientMem = a.bytes mem

/-! ## The narrowed count -/

theorem mpiCount_eq (size : UInt64) :
    mpiCount size =
      if size.toNat % 2 ^ 32 < 2 ^ 31 then (size.toNat % 2 ^ 32 : Int)
      else size.toNat % 2 ^ 32 - 2 ^ 32 := by
  have hbits : size.toUInt32.toInt32.toInt = size.toUInt32.toBitVec.toInt := rfl
  have hnat : size.toUInt32.toBitVec.toNat = size.toNat % 2 ^ 32 := by simp
  rw [mpiCount, hbits, BitVec.toInt_eq_toNat_cond, hnat]
  split <;> split <;> omega

theorem mpiCount_ofNat_of_lt {n : ℕ} (h : n < 2 ^ 31) : mpiCount (UInt64.ofNat n) = n := by
  have hn : (UInt64.ofNat n).toNat = n := by
    rw [UInt64.toNat_ofNat', Nat.mod_eq_of_lt (by omega)]
  rw [mpiCount_eq, hn]
  split <;> omega

/-- From 2^31 bytes on the count is negative, or at least 2^32 short. -/
theorem mpiCount_of_ge (size : UInt64) (h : 2 ^ 31 ≤ size.toNat) :
    mpiCount size < 0 ∨ (mpiCount size).toNat + 2 ^ 32 ≤ size.toNat := by
  rw [mpiCount_eq]
  split <;> omega

/-! ## One message

`MPIInterComm.received m` is what the receiver's buffer holds after a send and a matching receive of
the bytes `m`: its first `mpiCount m.length` bytes, then zeros. -/

/-- The bytes of `m` that arrive, filled up with zeros. -/
def MPIInterComm.received (m : Bytes) : Bytes :=
  let kept := m.take (mpiCount (UInt64.ofNat m.length)).toNat
  kept ++ zeros (m.length - kept.length)

theorem received_of_lt {m : Bytes} (h : m.length < 2 ^ 31) : MPIInterComm.received m = m := by
  have hcount : (mpiCount (UInt64.ofNat m.length)).toNat = m.length := by
    rw [mpiCount_ofNat_of_lt h, Int.toNat_natCast]
  simp [MPIInterComm.received, hcount]

/-- A matching send and receive: whatever the size, the receiver finds the first bytes of the data,
    and the channel is as it was. -/
theorem recv_send (m : Bytes) (later : List Bytes) :
    MPIInterComm.recv m.length (MPIInterComm.send m [] ++ later) =
      some (MPIInterComm.received m, later) := by
  unfold MPIInterComm.recv MPIInterComm.send MPIInterComm.received
  by_cases hcount : 0 ≤ mpiCount (UInt64.ofNat m.length)
  · simp only [if_pos hcount, List.nil_append, List.singleton_append]
    rw [List.take_take, min_self]
  · have hzero : (mpiCount (UInt64.ofNat m.length)).toNat = 0 := by omega
    simp [if_neg hcount, hzero]

theorem send_append (m : Bytes) (channel : List Bytes) :
    MPIInterComm.send m channel = channel ++ MPIInterComm.send m [] := by
  unfold MPIInterComm.send
  by_cases hcount : 0 ≤ mpiCount (UInt64.ofNat m.length)
  · simp [if_pos hcount]
  · simp [if_neg hcount]

/-- The bytes arrive unchanged exactly when those past the narrowed count are zero. -/
theorem received_eq_iff (m : Bytes) :
    MPIInterComm.received m = m ↔ ∀ x ∈ m.drop (mpiCount (UInt64.ofNat m.length)).toNat, x = 0 := by
  have hlen : m.length - (m.take (mpiCount (UInt64.ofNat m.length)).toNat).length =
      (m.drop (mpiCount (UInt64.ofNat m.length)).toNat).length := by
    simp only [List.length_take, List.length_drop]
    omega
  constructor
  · intro heq x hx
    rw [MPIInterComm.received, hlen] at heq
    have hsplit := List.take_append_drop (mpiCount (UInt64.ofNat m.length)).toNat m
    rw [← hsplit] at heq
    simp only [List.take_append_drop] at heq
    rw [← List.append_cancel_left (heq.trans hsplit.symm)] at hx
    exact List.eq_of_mem_replicate hx
  · intro hzero
    have hdrop := List.eq_replicate_of_mem hzero
    rw [MPIInterComm.received, hlen]
    simp only [zeros]
    rw [← hdrop, List.take_append_drop]

/-! ## Truncated headers -/

theorem blank_headerBytes (name : StdString) :
    (⟨name, .uint8, ⟨[0, 0, 0], rfl⟩, none⟩ : Buffer).headerBytes (.borrowed 0 0 0) =
      stringBytes name ++ zeros 44 := by
  simp [Buffer.headerBytes, DType.toUInt32, DataArray.numBytes, DataArray.stride, leBytes_zero,
    List.Vector.toList, zeros]

/-- A header of which only `k` bytes arrive, `k` inside the name or before it, decodes to some name
    and an empty array: every field behind the name is zero. -/
theorem decode_truncated (b : Buffer) (a : DataArray) {k : ℕ} (hk : k ≤ 8 + b.name.bytes.length) :
    ∃ h, decodeHeader Buffer.readHeader
        ((b.headerBytes a).take k ++ zeros ((b.headerBytes a).length - k)) = .ok h ∧
      h.nBytes = 0 := by
  have hname := b.name.size_lt
  have hlen := b.headerBytes_length a
  generalize hbuf : (b.headerBytes a).take k ++ zeros ((b.headerBytes a).length - k) = buf
  have hbuflen : buf.length = 52 + b.name.bytes.length := by
    rw [← hbuf, List.length_append, List.length_take, zeros_length]
    omega
  -- the length field decodes to at most the length of the name
  have hsize : leValue (buf.take 8) ≤ b.name.bytes.length := by
    have htake : buf.take 8 = (leBytes 8 b.name.bytes.length).take k ++ zeros (8 - k) := by
      have hfront : (b.headerBytes a).take 8 = leBytes 8 b.name.bytes.length := by
        rw [Buffer.headerBytes, stringBytes, List.append_assoc]
        exact List.take_left' (leBytes_length _ _)
      rw [← hbuf, List.take_append, List.take_take, min_comm, ← List.take_take, hfront]
      simp only [zeros, List.take_replicate, List.length_take]
      congr 2
      omega
    rw [htake]
    exact leValue_take_le _ _ _ _ (by norm_num; omega)
  have hkept : k ≤ 8 + leValue (buf.take 8) := by
    by_cases h8 : k < 8
    · omega
    · have hfront : buf.take 8 = leBytes 8 b.name.bytes.length := by
        rw [← hbuf, List.take_append_of_le_length (by rw [List.length_take]; omega),
          List.take_take, min_eq_left (by omega), Buffer.headerBytes, stringBytes,
          List.append_assoc]
        exact List.take_left' (leBytes_length _ _)
      rw [hfront, leValue_leBytes_of_lt _ _ (by norm_num; omega)]
      exact hk
  -- so the buffer starts like the header of a buffer with that much of a name and no data
  generalize hL : leValue (buf.take 8) = L at hsize hkept
  have hshort : ((buf.drop 8).take L).length = L := by
    rw [List.length_take, List.length_drop]
    omega
  let name : StdString := ⟨(buf.drop 8).take L, by rw [hshort]; omega⟩
  let shown : Buffer := ⟨name, .uint8, ⟨[0, 0, 0], rfl⟩, none⟩
  have hrest : buf.drop (8 + L) = zeros 44 ++ zeros (b.name.bytes.length - L) := by
    rw [← hbuf, List.drop_append, List.drop_eq_nil_of_le (by rw [List.length_take]; omega),
      List.nil_append]
    simp only [zeros, List.drop_replicate, List.replicate_append_replicate, List.length_take]
    congr 1
    omega
  have hfields := blank_headerBytes name
  have hsplit : buf = shown.headerBytes (.borrowed 0 0 0) ++ zeros (b.name.bytes.length - L) := by
    have himage : leBytes 8 L = buf.take 8 := by
      have h := leBytes_leValue (buf.take 8)
      rw [hL, List.length_take, min_eq_left (by omega)] at h
      exact h
    have hnamelen : name.bytes.length = L := hshort
    rw [hfields, List.append_assoc, ← hrest, stringBytes, hnamelen, himage, List.append_assoc]
    show buf = buf.take 8 ++ ((buf.drop 8).take L ++ buf.drop (8 + L))
    rw [← List.drop_drop, List.take_append_drop, List.take_append_drop]
  refine ⟨⟨name, DType.uint8.toUInt32, shown.dims, 0, 0⟩, ?_, rfl⟩
  rw [hsplit]
  refine decodeHeader_of_parses_append (shown.parses_header (.borrowed 0 0 0)) _ ?_
  rw [← hsplit, hbuflen]
  omega

/-! ## A whole transfer -/

theorem channel_eq (msgs : List Bytes) :
    msgs.foldl (fun q m => MPIInterComm.send m q) [] =
      msgs.flatMap (fun m => MPIInterComm.send m []) := by
  have hfold : ∀ q, msgs.foldl (fun q m => MPIInterComm.send m q) q =
      q ++ msgs.flatMap (fun m => MPIInterComm.send m []) := by
    induction msgs with
    | nil => simp
    | cons m ms ih =>
        intro q
        rw [List.foldl_cons, ih, send_append, List.flatMap_cons, List.append_assoc]
  simpa using hfold []

/-- A receive that asks for the length of the next message goes on with what arrives of it. -/
theorem run_recv_send {α : Type} {n : ℕ} (m : Bytes) (hn : m.length = n)
    (k : Bytes → RecvProg Fault α) (later : List Bytes) :
    (run MPIInterComm.recv (.vis (.recv n) k) (MPIInterComm.send m [] ++ later)).2.2 =
      (run MPIInterComm.recv (k (MPIInterComm.received m)) later).2.2 := by
  rw [← hn, run_recv_some (recv_send m later)]

theorem run_recv_data {α : Type} (mem : Memory) {a : DataArray} (ha : a.Sized)
    (f : Bytes → α) :
    (run MPIInterComm.recv ((Receive.recv a.numBytes.toNat : RecvProg Fault Bytes) >>= fun bs =>
        pure (f bs)) (MPIInterComm.send (a.bytes mem) [] ++ [])).2.2 =
      some (.ok (f (MPIInterComm.received (a.bytes mem)))) := by
  exact run_recv_send (a.bytes mem) (a.bytes_length mem ha) (fun bs => pure (f bs)) []

theorem Buffer.transfer_small_header (mem : Memory) (b : Buffer) {a : DataArray}
    (harray : b.array = some a) (ha : a.Sized) (hname : 52 + b.name.bytes.length < 2 ^ 31) :
    MPIInterComm.transfer (b.send mem) Buffer.recv =
      some { b with array := some (.owned a.stride (MPIInterComm.received (a.bytes mem))) } := by
  have hlen := b.headerBytes_length a
  have hsize := b.size_header a
  have hrun : (run MPIInterComm.recv Buffer.recv
      (MPIInterComm.send (leBytes 8 (b.headerBytes a).length) [] ++
        (MPIInterComm.send (b.headerBytes a) [] ++
          (MPIInterComm.send (a.bytes mem) [] ++ [])))).2.2 =
      some (.ok { b with
        array := some (.owned a.stride (MPIInterComm.received (a.bytes mem))) }) := by
    have h8 : (leBytes 8 (b.headerBytes a).length).length = 8 := leBytes_length _ _
    unfold Buffer.recv
    rw [Receive.recv_bind, run_recv_send _ h8, received_of_lt (by rw [h8]; norm_num), hsize,
      Receive.recv_bind, run_recv_send _ rfl, received_of_lt (by omega),
      decodeHeader_of_parses (b.parses_header a) (by omega), ofExcept_ok, Prog.ret_bind]
    simp only [DType.ofUInt32_toUInt32]
    exact run_recv_data mem ha (fun bs => { b with array := some (.owned a.stride bs) })
  unfold MPIInterComm.transfer
  rw [Buffer.send_eq mem harray]
  simp only [channel_eq, List.flatMap_cons, List.flatMap_nil]
  rw [hrun]

/-- With a header of 2^31 bytes or more, the array that arrives is empty if anything does. -/
theorem Buffer.transfer_large_header (mem : Memory) (b : Buffer) {a : DataArray}
    (harray : b.array = some a) (hname : ¬ 52 + b.name.bytes.length < 2 ^ 31) :
    (∀ r, MPIInterComm.transfer (b.send mem) Buffer.recv = some r →
        ∃ stride, r.array = some (.owned stride [])) ∧
      (a.bytes mem = [] → ∃ r, MPIInterComm.transfer (b.send mem) Buffer.recv = some r) := by
  have hbound := b.name.size_lt
  have hlen := b.headerBytes_length a
  have hsize := b.size_header a
  -- what arrives of the header ends before the fields behind the name
  obtain ⟨h, hdecode, hzero⟩ : ∃ h,
      decodeHeader Buffer.readHeader (MPIInterComm.received (b.headerBytes a)) = .ok h ∧
        h.nBytes = 0 := by
    have hcount := mpiCount_of_ge (UInt64.ofNat (b.headerBytes a).length) (by
      rw [UInt64.toNat_ofNat', Nat.mod_eq_of_lt (by omega)]; omega)
    rw [UInt64.toNat_ofNat', Nat.mod_eq_of_lt (by omega)] at hcount
    have hk : (mpiCount (UInt64.ofNat (b.headerBytes a).length)).toNat ≤
        8 + b.name.bytes.length := by omega
    have hkept : ((b.headerBytes a).take
        (mpiCount (UInt64.ofNat (b.headerBytes a).length)).toNat).length =
        (mpiCount (UInt64.ofNat (b.headerBytes a).length)).toNat := by
      rw [List.length_take]
      omega
    have htrunc := decode_truncated b a hk
    unfold MPIInterComm.received
    simp only [hkept]
    exact htrunc
  have hrun : (run MPIInterComm.recv Buffer.recv
      (MPIInterComm.send (leBytes 8 (b.headerBytes a).length) [] ++
        (MPIInterComm.send (b.headerBytes a) [] ++
          (MPIInterComm.send (a.bytes mem) [] ++ [])))).2.2 =
      (MPIInterComm.recv 0 (MPIInterComm.send (a.bytes mem) [])).map (fun _ =>
        .ok ⟨h.name, DType.ofUInt32 h.dtype, h.dims, some (.owned h.elemStride [])⟩) := by
    have h8 : (leBytes 8 (b.headerBytes a).length).length = 8 := leBytes_length _ _
    unfold Buffer.recv
    rw [Receive.recv_bind, run_recv_send _ h8, received_of_lt (by rw [h8]; norm_num), hsize,
      Receive.recv_bind, run_recv_send _ rfl, hdecode, ofExcept_ok, Prog.ret_bind, hzero,
      List.append_nil]
    cases hchan : MPIInterComm.send (a.bytes mem) [] with
    | nil => rfl
    | cons m ms => rfl
  have htransfer : MPIInterComm.transfer (b.send mem) Buffer.recv =
      (MPIInterComm.recv 0 (MPIInterComm.send (a.bytes mem) [])).map (fun _ =>
        ⟨h.name, DType.ofUInt32 h.dtype, h.dims, some (.owned h.elemStride [])⟩) := by
    unfold MPIInterComm.transfer
    rw [Buffer.send_eq mem harray]
    simp only [channel_eq, List.flatMap_cons, List.flatMap_nil]
    rw [hrun]
    cases MPIInterComm.recv 0 (MPIInterComm.send (a.bytes mem) []) with
    | none => rfl
    | some r => rfl
  rw [htransfer]
  constructor
  · intro r hr
    obtain ⟨_, -, rfl⟩ := Option.map_eq_some_iff.1 hr
    exact ⟨h.elemStride, rfl⟩
  · intro hempty
    rw [hempty]
    exact ⟨_, rfl⟩

theorem Particles.transfer_eq (mem : Memory) (p : Particles) {a : DataArray}
    (harray : p.array = some a) (ha : a.Sized) :
    MPIInterComm.transfer (p.send mem) Particles.recv =
      some { p with array := some (.owned a.stride (MPIInterComm.received (a.bytes mem))) } := by
  have hrun : (run MPIInterComm.recv Particles.recv
      (MPIInterComm.send (p.headerBytes a) [] ++
        (MPIInterComm.send (a.bytes mem) [] ++ []))).2.2 =
      some (.ok { p with
        array := some (.owned a.stride (MPIInterComm.received (a.bytes mem))) }) := by
    unfold Particles.recv
    rw [Receive.recv_bind, run_recv_send _ (p.headerBytes_length a), received_of_lt (by simp),
      decodeHeader_of_parses (p.parses_header a) (by simp), ofExcept_ok, Prog.ret_bind]
    exact run_recv_data mem ha (fun bs => { p with array := some (.owned a.stride bs) })
  unfold MPIInterComm.transfer
  rw [Particles.send_eq mem harray]
  simp only [channel_eq, List.flatMap_cons, List.flatMap_nil]
  rw [hrun]

theorem sameBytes_owned_iff (mem : Memory) (a : DataArray) (stride : UInt64) (bs : Bytes) :
    SameBytes mem a (some (.owned stride bs)) ↔ bs = a.bytes mem := by
  constructor
  · rintro ⟨c, hc, hbytes⟩
    obtain rfl := Option.some.inj hc
    exact hbytes mem
  · rintro rfl
    exact ⟨_, rfl, fun _ => rfl⟩

/-- The bytes of an array arrive as one message if those past the narrowed byte count are zero. -/
theorem received_bytes_iff (mem : Memory) {a : DataArray} (ha : a.Sized) :
    MPIInterComm.received (a.bytes mem) = a.bytes mem ↔
      ∀ x ∈ (a.bytes mem).drop (mpiCount a.numBytes).toNat, x = 0 := by
  have hlen : UInt64.ofNat (a.bytes mem).length = a.numBytes := by
    rw [a.bytes_length mem ha, UInt64.ofNat_toNat]
  rw [received_eq_iff, hlen]

/-- **Transport over MPI.** A buffer's array arrives byte for byte if and only if the header is
    below 2^31 bytes, or the array empty, and the bytes past the array's narrowed byte count are
    zero. For particles, whose header is 32 bytes, only the second counts. -/
theorem mpi_transfer_iff (mem : Memory) (a : DataArray) (ha : a.Sized) :
    (∀ b : Buffer, b.array = some a →
      ((∃ r, MPIInterComm.transfer (b.send mem) Buffer.recv = some r ∧ SameBytes mem a r.array) ↔
        (52 + b.name.bytes.length < 2 ^ 31 ∨ a.numBytes = 0) ∧
          ∀ x ∈ (a.bytes mem).drop (mpiCount a.numBytes).toNat, x = 0)) ∧
    (∀ p : Particles, p.array = some a →
      ((∃ r, MPIInterComm.transfer (p.send mem) Particles.recv = some r ∧
          SameBytes mem a r.array) ↔
        ∀ x ∈ (a.bytes mem).drop (mpiCount a.numBytes).toNat, x = 0)) := by
  have hbytes := received_bytes_iff mem ha
  have hempty : a.bytes mem = [] ↔ a.numBytes = 0 := by
    rw [← List.length_eq_zero_iff, a.bytes_length mem ha, ← UInt64.toNat_inj]
    rfl
  constructor
  · intro b harray
    by_cases hname : 52 + b.name.bytes.length < 2 ^ 31
    · rw [b.transfer_small_header mem harray ha hname, ← hbytes]
      simp only [Option.some.injEq, exists_eq_left', sameBytes_owned_iff, hname, true_or, true_and]
    · obtain ⟨hshape, hexists⟩ := b.transfer_large_header mem harray hname
      constructor
      · rintro ⟨r, hr, hsame⟩
        obtain ⟨stride, hr'⟩ := hshape r hr
        rw [hr', sameBytes_owned_iff] at hsame
        rw [← hsame]
        exact ⟨.inr (hempty.1 hsame.symm), by simp⟩
      · rintro ⟨hsmall | hzero, -⟩
        · exact absurd hsmall hname
        · have hnil := hempty.2 hzero
          obtain ⟨r, hr⟩ := hexists hnil
          obtain ⟨stride, hr'⟩ := hshape r hr
          refine ⟨r, hr, ?_⟩
          rw [hr', sameBytes_owned_iff, hnil]
  · intro p harray
    rw [p.transfer_eq mem harray ha, ← hbytes]
    simp only [Option.some.injEq, exists_eq_left', sameBytes_owned_iff]

/-- A buffer without a name and one byte of data. -/
def oneByte : Buffer :=
  ⟨⟨[], StdString.empty_lt⟩, .uint8, ⟨[1, 1, 1], rfl⟩, some (.borrowed 1 0 1)⟩

theorem mpi_transfer_oneByte :
    ∃ r, MPIInterComm.transfer (oneByte.send (fun _ => 7)) Buffer.recv = some r ∧
      SameBytes (fun _ => 7) (.borrowed 1 0 1) r.array := by
  refine ((mpi_transfer_iff (fun _ => 7) (.borrowed 1 0 1) trivial).1 oneByte rfl).2
    ⟨.inl (by decide), ?_⟩
  have hcount : mpiCount (DataArray.borrowed 1 0 1).numBytes = 1 := by decide
  rw [hcount, List.drop_eq_nil_of_le (by simp [DataArray.bytes])]
  simp

/-- A buffer without a name and 2^31 bytes of data. -/
def twoGigabytes : Buffer :=
  ⟨⟨[], StdString.empty_lt⟩, .uint8, ⟨[0x80000000, 1, 1], rfl⟩, some (.borrowed 1 0 0x80000000)⟩

/-- Of 2^31 bytes that are not zero none arrives. -/
theorem mpi_loses_twoGigabytes :
    ¬ ∃ r, MPIInterComm.transfer (twoGigabytes.send (fun _ => 1)) Buffer.recv = some r ∧
      SameBytes (fun _ => 1) (.borrowed 1 0 0x80000000) r.array := by
  rintro ⟨r, hr, hsame⟩
  rw [twoGigabytes.transfer_small_header (fun _ => 1) rfl trivial (by decide),
    Option.some.injEq] at hr
  subst hr
  have hzero := received_bytes_iff (fun _ => 1) (a := .borrowed 1 0 0x80000000) trivial
  rw [sameBytes_owned_iff, hzero] at hsame
  have hcount : (mpiCount (DataArray.borrowed 1 0 0x80000000).numBytes).toNat = 0 := by decide
  rw [hcount, List.drop_zero] at hsame
  have hmem : (1 : UInt8) ∈ DataArray.bytes (fun _ => 1) (.borrowed 1 0 0x80000000) := by
    simp only [DataArray.bytes, List.mem_map, List.mem_range]
    exact ⟨0, by decide, trivial⟩
  exact absurd (hsame 1 hmem) (by decide)

end LibIS
