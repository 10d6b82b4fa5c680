import LibIS.RegionTransfer

set_option autoImplicit false

/-! # The host list exchange (`intercomm.cpp`, `SocketInterComm::accept` / `connect`)

Acceptor 0 sends the encoded list of the other acceptors' hosts, after its size. The connector reads
both with a bare `::recv` each and looks at neither result, so a read that comes back short leaves
zeros in the buffer and the rest of the list in the stream. `host_exchange_iff`: the exchange is
right exactly when neither read is short. -/

open ByteCodec Receive

namespace LibIS

/-- What `SocketInterComm::accept` hands to `::send` for each connection on rank 0. -/
def sendHosts (hosts : List StdString) : Except Fault (List Bytes) := do
  let hostsbuf ← serialize (writeVector writeString hosts)
  return [leBytes 8 hostsbuf.length, hostsbuf]

/-- `readbuf >> remoteHosts`. -/
def readHosts (alloc : Allocator) : ReaderM (List StdString) :=
  readVector alloc (readString alloc)

/-- The two `::recv` calls of `SocketInterComm::connect`, and the decoding of the list. -/
def recvHosts (alloc : Allocator) : RecvProg Fault (List StdString) := do
  let bufSize ← Receive.recv 8
  let recvbuf ← Receive.recv (leValue bufSize)
  ofExcept (decodeHeader (readHosts alloc) recvbuf)

/-- The encoded list. -/
def hostsBytes (hosts : List StdString) : Bytes :=
  vectorBytes stringBytes hosts

theorem length_le_hostsBytes (hosts : List StdString) :
    hosts.length ≤ (hostsBytes hosts).length := by
  unfold hostsBytes vectorBytes
  induction hosts with
  | nil => simp
  | cons h hs ih =>
      simp only [List.length_append, leBytes_length, List.flatMap_cons, List.length_cons,
        stringBytes_length] at ih ⊢
      omega

theorem sendHosts_eq {hosts : List StdString} (hlen : (hostsBytes hosts).length < 2 ^ 63) :
    sendHosts hosts = .ok [leBytes 8 (hostsBytes hosts).length, hostsBytes hosts] := by
  have hcount := length_le_hostsBytes hosts
  have hemits : Emits (writeVector writeString hosts) (hostsBytes hosts) :=
    emits_writeVector hosts (by omega) (fun s _ => emits_writeString s)
  rw [sendHosts, serialize_of_emits hemits hlen]
  rfl

theorem decode_hosts {hosts : List StdString} (hlen : (hostsBytes hosts).length < 2 ^ 63) :
    decodeHeader (readHosts unlimited) (hostsBytes hosts) = .ok hosts := by
  have hcount := length_le_hostsBytes hosts
  refine decodeHeader_of_parses ?_ (by omega)
  exact parses_readVector hosts (by omega) (fun _ => rfl)
    (fun s _ => parses_readString s (fun _ => rfl))

/-- Whatever list is decoded with bounded memory is decoded without the bound. -/
theorem decode_hosts_yields {alloc : Allocator} {buf : Bytes} {hosts : List StdString}
    (h : decodeHeader (readHosts alloc) buf = .ok hosts) :
    decodeHeader (readHosts unlimited) buf = .ok hosts := by
  have hyields : Yields (readHosts alloc) (readHosts unlimited) :=
    yields_readVector alloc (yields_readString alloc)
  unfold decodeHeader at h ⊢
  cases hrun : readHosts alloc (ReadBuffer.make buf) with
  | error e =>
      rw [hrun] at h
      exact absurd h (by simp [Bind.bind, Except.bind])
  | ok x =>
      rw [hrun] at h
      rw [hyields _ _ hrun]
      exact h

/-- A finished exchange: what the two reads took, and what was decoded. -/
theorem run_recvHosts {alloc : Allocator} {k₁ k₂ : ℕ} {stream rest : Bytes} {asked : List ℕ}
    {remoteHosts : List StdString}
    (h : run recvSome (recvHosts alloc) ([k₁, k₂], stream) =
      (asked, ([], rest), some (.ok remoteHosts))) :
    k₁ ≤ 8 ∧ k₁ ≤ stream.length ∧
      k₂ ≤ leValue (stream.take k₁ ++ zeros (8 - k₁)) ∧ k₂ ≤ (stream.drop k₁).length ∧
      rest = (stream.drop k₁).drop k₂ ∧
      decodeHeader (readHosts alloc) ((stream.drop k₁).take k₂ ++
        zeros (leValue (stream.take k₁ ++ zeros (8 - k₁)) - k₂)) = .ok remoteHosts := by
  unfold recvHosts at h
  rw [Receive.recv_bind, run.eq_def] at h
  cases hfirst : recvSome 8 ([k₁, k₂], stream) with
  | none =>
      simp only [hfirst] at h
      exact absurd h (by simp)
  | some r =>
      obtain ⟨b₁, cuts₁, s₁⟩ := r
      obtain ⟨hk₁, hs₁, rfl, rfl, rfl⟩ := recvSome_eq_some hfirst
      simp only [hfirst, Receive.recv_bind] at h
      generalize hsize : leValue (stream.take k₁ ++ zeros (8 - k₁)) = size at h ⊢
      rw [run.eq_def] at h
      cases hsecond : recvSome size ([k₂], stream.drop k₁) with
      | none =>
          simp only [hsecond] at h
          exact absurd h (by simp)
      | some r =>
          obtain ⟨b₂, cuts₂, s₂⟩ := r
          obtain ⟨hk₂, hs₂, rfl, rfl, rfl⟩ := recvSome_eq_some hsecond
          simp only [hsecond] at h
          cases hdecode : decodeHeader (readHosts alloc)
              ((stream.drop k₁).take k₂ ++ zeros (size - k₂)) with
          | error e =>
              rw [hdecode, ofExcept_error, Receive.throw, run.eq_def] at h
              simp at h
          | ok hosts =>
              rw [hdecode, ofExcept_ok, run.eq_def] at h
              simp only [Prod.mk.injEq, Option.some.injEq, Except.ok.injEq, true_and] at h
              exact ⟨hk₁, hs₁, hk₂, hs₂, h.2.1.symm, by rw [h.2.2]⟩

/-- **Host list exchange.** An exchange that finishes has decoded the list that was sent and left
    nothing unread if and only if both reads came back in full; and when they do and memory
    suffices, it finishes. -/
theorem host_exchange_iff (alloc : Allocator) (hosts : List StdString)
    (hlen : (hostsBytes hosts).length < 2 ^ 63) :
    ∃ size encoded, sendHosts hosts = .ok [size, encoded] ∧
      (∀ k₁ k₂ asked rest remoteHosts,
        run recvSome (recvHosts alloc) ([k₁, k₂], size ++ encoded) =
            (asked, ([], rest), some (.ok remoteHosts)) →
          ((remoteHosts = hosts ∧ rest = []) ↔ (k₁ = 8 ∧ k₂ = encoded.length))) ∧
      ((∀ b n, alloc b n = true) →
        run recvSome (recvHosts alloc) ([8, encoded.length], size ++ encoded) =
          ([8, encoded.length], ([], []), some (.ok hosts))) := by
  have hsize : leValue (leBytes 8 (hostsBytes hosts).length) = (hostsBytes hosts).length :=
    leValue_leBytes_of_lt _ _ (by norm_num; omega)
  have h8 : (leBytes 8 (hostsBytes hosts).length).length = 8 := leBytes_length _ _
  refine ⟨_, _, sendHosts_eq hlen, ?_, ?_⟩
  · intro k₁ k₂ asked rest remoteHosts hrun
    obtain ⟨hk₁, -, hk₂, hs₂, hrest, hdecode⟩ := run_recvHosts hrun
    constructor
    · rintro ⟨-, hnil⟩
      -- all bytes are gone, and neither read can have taken more than its share
      have hshare : k₂ ≤ (hostsBytes hosts).length := by
        rw [List.take_append_of_le_length (by omega)] at hk₂
        exact hk₂.trans (leValue_take_le _ _ _ _ (by norm_num; omega))
      have htotal := congrArg List.length (hrest.symm.trans hnil)
      simp only [List.length_drop, List.length_append, h8, List.length_nil] at htotal hs₂
      omega
    · rintro ⟨rfl, rfl⟩
      have htake : (leBytes 8 (hostsBytes hosts).length ++ hostsBytes hosts).take 8 =
          leBytes 8 (hostsBytes hosts).length := List.take_left' h8
      have hdrop : (leBytes 8 (hostsBytes hosts).length ++ hostsBytes hosts).drop 8 =
          hostsBytes hosts := List.drop_left' h8
      rw [htake, hdrop, Nat.sub_self, zeros_zero, List.append_nil, hsize, Nat.sub_self,
        zeros_zero, List.append_nil, List.take_length] at hdecode
      rw [hdrop, List.drop_length] at hrest
      have hsame := decode_hosts_yields hdecode
      rw [decode_hosts hlen] at hsame
      exact ⟨(Except.ok.inj hsame).symm, hrest⟩
  · intro halloc
    have hdecode : decodeHeader (readHosts alloc) (hostsBytes hosts) = .ok hosts := by
      have hcount := length_le_hostsBytes hosts
      refine decodeHeader_of_parses ?_ (by omega)
      exact parses_readVector hosts (by omega) (fun b => halloc b _)
        (fun s _ => parses_readString s (fun b => halloc b _))
    have hfirst : recvSome 8 ([8, (hostsBytes hosts).length],
        leBytes 8 (hostsBytes hosts).length ++ hostsBytes hosts) =
        some (leBytes 8 (hostsBytes hosts).length, ([(hostsBytes hosts).length],
          hostsBytes hosts)) := by
      simp [recvSome]
    have hsecond : recvSome (hostsBytes hosts).length ([(hostsBytes hosts).length],
        hostsBytes hosts) = some (hostsBytes hosts, ([], [])) := by
      have hpos : 0 < (hostsBytes hosts).length := by
        simp [hostsBytes, vectorBytes]
      simp [recvSome, hpos]
    unfold recvHosts
    rw [Receive.recv_bind, run_recv_some hfirst, hsize, Receive.recv_bind, run_recv_some hsecond,
      hdecode]
    rfl

/-- A host of three characters, `a:1`. -/
def shortHost : StdString :=
  ⟨[97, 58, 49], by decide⟩

/-- A list of one host, read in full: nothing is asked of memory that the list does not hold. -/
theorem host_exchange_shortHost :
    (hostsBytes [shortHost]).length < 2 ^ 63 ∧
      ∃ size encoded, sendHosts [shortHost] = .ok [size, encoded] ∧
        run recvSome (recvHosts unlimited) ([8, encoded.length], size ++ encoded) =
          ([8, encoded.length], ([], []), some (.ok [shortHost])) := by
  refine ⟨by decide, ?_⟩
  obtain ⟨size, encoded, hsend, -, hfull⟩ :=
    host_exchange_iff unlimited [shortHost] (by decide)
  exact ⟨size, encoded, hsend, hfull (fun _ _ => rfl)⟩

/-- When only the first byte of the list arrives with the second read, the exchange finishes with
    one empty host in place of `a:1`. -/
theorem short_read_empties_host :
    sendHosts [shortHost] = .ok [leBytes 8 19, hostsBytes [shortHost]] ∧
      run recvSome (recvHosts unlimited) ([8, 1], leBytes 8 19 ++ hostsBytes [shortHost]) =
        ([8, 19], ([], (hostsBytes [shortHost]).drop 1), some (.ok [⟨[], by decide⟩])) ∧
      ¬ ([⟨[], by decide⟩] = [shortHost] ∧ (hostsBytes [shortHost]).drop 1 = []) := by
  refine ⟨sendHosts_eq (by decide), by rfl, by decide⟩

end LibIS
