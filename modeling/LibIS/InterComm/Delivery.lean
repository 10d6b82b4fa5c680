import LibIS.InterComm.ByteChannel
import LibIS.InterComm.MPI

set_option autoImplicit false

/-! # Receiving over a connection (`intercomm.cpp`, `is_client.cpp`)

What a receiver asks for depends on what it has received, and each of its receives is a loop of
system calls, while the sender is in the middle of loops of its own. Where the receiver reads the
messages of the sender (`Reads`), all of this is a run of a connection on which both ends know their
calls beforehand (`Follows`). So a receiver cannot tell the sockets from a queue of messages, and
neither can it tell them from MPI while the messages are short. -/

open ByteCodec Receive

namespace LibIS

/-! ## The system -/

namespace Span

theorem zeros_lt {n : ℕ} (h : n < 2 ^ 64) : (zeros n).length < 2 ^ 64 := by
  rwa [zeros_length]

/-- The memory that a receiver allocates. -/
def blank (n : ℕ) (h : n < 2 ^ 64) : Span :=
  ⟨zeros n, zeros_lt h⟩

/-- The memory that a receiver of `m` allocates. -/
def blanked (m : Span) : Span :=
  blank m.bytes.length m.size_lt

@[simp] theorem blanked_length (m : Span) : m.blanked.bytes.length = m.bytes.length :=
  zeros_length _

end Span

/-- A receiver: what is left of its program, and the call of `recv` that is under way. -/
structure Reader (α : Type) where
  prog : RecvProg Fault α
  current : Option (Span × Transfer)

/-- A sender and a receiver that are connected. -/
structure Delivery (α : Type) where
  sender : Side
  queue : Bytes
  reader : Reader α

namespace Delivery

variable {α : Type}

/-- The sender is to send the given messages. -/
def start (sends : List Span) (prog : RecvProg Fault α) : Delivery α :=
  ⟨⟨sends, none, []⟩, [], ⟨prog, none⟩⟩

/-- One step of either end. The receiver starts the call that its program asks for, and the program
    goes on with the memory when the call has ended. -/
inductive Step : Delivery α → Delivery α → Prop
  | sender {s s' : Side} {q : Bytes} {r : Reader α} (h : Side.Turn SocketInterComm.send s s') :
      Step ⟨s, q, r⟩ ⟨s', q, r⟩
  | send {todo : List Span} {m : Span} {t : Transfer} {ended : List (Span × Transfer)} {q : Bytes}
      {r : Reader α} {req : Request} (k : ℕ) (hreq : t.request = some req) (hpos : 0 < k)
      (hle : k ≤ req.length.toNat) (hint : k < 2 ^ 31) :
      Step ⟨⟨todo, some (m, t), ended⟩, q, r⟩
        ⟨⟨todo, some (m, t.round (Int64.ofNat k)), ended⟩, q ++ m.load req.offset.toNat k, r⟩
  | start {s : Side} {q : Bytes} {n : ℕ} {next : Bytes → RecvProg Fault α} (hn : n < 2 ^ 64) :
      Step ⟨s, q, ⟨.vis (.recv n) next, none⟩⟩
        ⟨s, q, ⟨.vis (.recv n) next,
          some (.blank n hn, SocketInterComm.recv (Span.blank n hn).size)⟩⟩
  | recv {s : Side} {q : Bytes} {prog : RecvProg Fault α} {m : Span} {t : Transfer} {req : Request}
      (k : ℕ) (hreq : t.request = some req) (hpos : 0 < k) (hle : k ≤ req.length.toNat)
      (hint : k < 2 ^ 31) (havail : k ≤ q.length) :
      Step ⟨s, q, ⟨prog, some (m, t)⟩⟩
        ⟨s, q.drop k, ⟨prog, some (m.store req.offset.toNat (q.take k), t.round (Int64.ofNat k))⟩⟩
  | finish {s : Side} {q : Bytes} {n : ℕ} {next : Bytes → RecvProg Fault α} {m : Span}
      {t : Transfer} (hreq : t.request = none) :
      Step ⟨s, q, ⟨.vis (.recv n) next, some (m, t)⟩⟩ ⟨s, q, ⟨next m.bytes, none⟩⟩

/-- What a delivery reaches. -/
abbrev Reaches : Delivery α → Delivery α → Prop :=
  Relation.ReflTransGen Step

/-! ## A connection that does the same -/

/-- The receiver has read the messages `done`, and its program reads the messages `rest` that are
    left; `todo` are the calls for which it has not yet asked. -/
def Reader.On (r : Reader α) (rest todo : List Span) (a : α) : Prop :=
  Reads r.prog (rest.map Span.bytes) a ∧
    match r.current with
    | none => todo = rest.map Span.blanked
    | some (m, _) => ∃ msg later, rest = msg :: later ∧ m.bytes.length = msg.bytes.length ∧
        todo = later.map Span.blanked

/-- A connection whose receiving end makes the calls that the program will ask for. -/
structure Follows (d : Delivery α) (c : Connection) (sends : List Span) (a : α) : Prop where
  sender : c.sender = d.sender
  queue : c.queue = d.queue
  current : c.receiver.current = d.reader.current
  refines : ∃ ch, c.Refines ch
  spans : c.sender.spans = sends
  sizes : c.receiver.sizes = sends.map (fun m => m.bytes.length)
  reading : ∃ done rest, sends = done ++ rest ∧
    c.receiver.ended.map (fun e => e.1.bytes) = done.map Span.bytes ∧
      Reader.On d.reader rest c.receiver.todo a

section Follows

variable {d d' : Delivery α} {c : Connection} {sends : List Span} {a : α}

theorem follows_start {prog : RecvProg Fault α} (h : Reads prog (sends.map Span.bytes) a) :
    (start sends prog).Follows (Connection.start sends (sends.map Span.blanked)) sends a where
  sender := rfl
  queue := rfl
  current := rfl
  refines := ⟨_, Connection.refines_start _ _⟩
  spans := rfl
  sizes := by simp [Connection.start, Side.sizes, Function.comp_def]
  reading := ⟨[], sends, rfl, rfl, h, rfl⟩

theorem received_eq {ch : Channel UInt8} {s : Side} {q : Bytes} {todo : List Span} {m : Span}
    {t : Transfer} {ended : List (Span × Transfer)} {done later : List Span} {msg : Span}
    (hrefines : Connection.Refines ⟨s, q, ⟨todo, some (m, t), ended⟩⟩ ch)
    (hspans : s.spans = done ++ msg :: later)
    (hdone : ended.map (fun e => e.1.bytes) = done.map Span.bytes)
    (hlen : m.bytes.length = msg.bytes.length) (hreq : t.request = none) :
    m.bytes = msg.bytes := by
  obtain ⟨hsize, -⟩ := hrefines.receiver.current m t rfl
  have hall : t.counter.toNat = m.bytes.length := by
    rw [Transfer.request_eq_none.1 hreq, hsize, Span.size_toNat]
  have htaken : (done.map Span.bytes).flatten ++ m.bytes = ch.sent.take ch.taken := by
    rw [← hrefines.taken, ← hdone]
    simp [Side.moved, hall]
  have hsent : ch.sent <+: ((done ++ msg :: later).map Span.bytes).flatten := by
    rw [← hspans, ← hrefines.sent]
    exact Side.moved_spans s
  have hle := (htaken ▸ List.take_prefix ch.taken ch.sent).trans hsent
  rw [List.map_append, List.flatten_append, List.prefix_append_right_inj, List.map_cons,
    List.flatten_cons] at hle
  have htake := List.prefix_iff_eq_take.1 hle
  rwa [hlen, List.take_left] at htake

/-- **Simulation.** Each step of the receiver's program is one of a call on the connection. -/
theorem Follows.step (h : d.Follows c sends a) (hstep : Step d d') :
    ∃ c', Connection.Step c c' ∧ d'.Follows c' sends a := by
  obtain ⟨hsender, hqueue, hcurrent, ⟨ch, hrefines⟩, hspans, hsizes, hreading⟩ := h
  obtain ⟨s, q, ⟨todo, current, ended⟩⟩ := c
  simp only at hsender hqueue hcurrent hspans hsizes hreading
  -- whatever the connection does, it keeps to the calls of its ends
  have hkeeps : ∀ {c' : Connection}, Connection.Step ⟨s, q, ⟨todo, current, ended⟩⟩ c' →
      (∃ ch', c'.Refines ch') ∧ c'.sender.spans = sends ∧
        c'.receiver.sizes = sends.map (fun m => m.bytes.length) := by
    intro c' hc
    obtain ⟨ch', -, hrefines'⟩ := hrefines.step hc
    obtain ⟨hspans', -, hsizes'⟩ := hc.calls
    exact ⟨⟨ch', hrefines'⟩, hspans'.trans hspans, hsizes'.trans hsizes⟩
  cases hstep with
  | @sender s s' q r hturn =>
      subst hsender hqueue
      have hc : Connection.Step ⟨s, q, ⟨todo, current, ended⟩⟩ ⟨s', q, ⟨todo, current, ended⟩⟩ :=
        .sender hturn
      obtain ⟨hrefines', hspans', hsizes'⟩ := hkeeps hc
      exact ⟨_, hc, rfl, rfl, hcurrent, hrefines', hspans', hsizes', hreading⟩
  | @send todo' m t ended' q r req k hreq hpos hle hint =>
      subst hsender hqueue
      have hc : Connection.Step ⟨⟨todo', some (m, t), ended'⟩, q, ⟨todo, current, ended⟩⟩ _ :=
        .send k hreq hpos hle hint
      obtain ⟨hrefines', hspans', hsizes'⟩ := hkeeps hc
      exact ⟨_, hc, rfl, rfl, hcurrent, hrefines', hspans', hsizes', hreading⟩
  | @start s q n next hn =>
      subst hsender hqueue hcurrent
      obtain ⟨done, rest, hsplit, hdone, hreads, htodo⟩ := hreading
      obtain rfl : todo = rest.map Span.blanked := htodo
      cases rest with
      | nil => exact absurd hreads.nil_inv (by simp)
      | cons msg later =>
          obtain ⟨rfl, -⟩ := hreads.recv_inv
          have hc : Connection.Step
              ⟨s, q, ⟨msg.blanked :: later.map Span.blanked, none, ended⟩⟩ _ := .receiver .start
          obtain ⟨hrefines', hspans', hsizes'⟩ := hkeeps hc
          exact ⟨_, hc, rfl, rfl, rfl, hrefines', hspans', hsizes', done, msg :: later, hsplit, hdone,
            hreads, msg, later, rfl, msg.blanked_length, rfl⟩
  | @recv s q prog m t req k hreq hpos hle hint havail =>
      subst hsender hqueue hcurrent
      obtain ⟨done, rest, hsplit, hdone, hreads, msg, later, hrest, hlen, htodo⟩ := hreading
      have hc : Connection.Step ⟨s, q, ⟨todo, some (m, t), ended⟩⟩ _ :=
        .recv k hreq hpos hle hint havail
      obtain ⟨hrefines', hspans', hsizes'⟩ := hkeeps hc
      exact ⟨_, hc, rfl, rfl, rfl, hrefines', hspans', hsizes', done, rest, hsplit, hdone, hreads, msg,
        later, hrest, (Span.store_length ..).trans hlen, htodo⟩
  | @finish s q n next m t hreq =>
      subst hsender hqueue hcurrent
      obtain ⟨done, rest, hsplit, hdone, hreads, msg, later, rfl, hlen, htodo⟩ := hreading
      have hbytes := received_eq hrefines (hspans.trans hsplit) hdone hlen hreq
      have hc : Connection.Step ⟨s, q, ⟨todo, some (m, t), ended⟩⟩ _ := .receiver (.finish hreq)
      obtain ⟨hrefines', hspans', hsizes'⟩ := hkeeps hc
      refine ⟨_, hc, rfl, rfl, rfl, hrefines', hspans', hsizes', done ++ [msg], later, ?_, ?_, ?_,
        htodo⟩
      · rw [hsplit, List.append_assoc, List.singleton_append]
      · rw [List.map_append, hdone, List.map_append, List.map_singleton, List.map_singleton, hbytes]
      · rw [hbytes]
        exact hreads.recv_inv.2

theorem Follows.of_reaches {prog : RecvProg Fault α} (h : Reads prog (sends.map Span.bytes) a)
    (hd : Reaches (start sends prog) d) : ∃ c, d.Follows c sends a := by
  induction hd with
  | refl => exact ⟨_, follows_start h⟩
  | tail _ hstep ih =>
      obtain ⟨c, hfollows⟩ := ih
      obtain ⟨c', -, hfollows'⟩ := hfollows.step hstep
      exact ⟨c', hfollows'⟩

/-! ## The end of a run -/

/-- The connection has no step that the receiver cannot make. -/
theorem Follows.stuck (h : d.Follows c sends a) (hstuck : ∀ d', ¬ Step d d') :
    ∀ c', ¬ Connection.Step c c' := by
  obtain ⟨hsender, hqueue, hcurrent, -, -, -, done, rest, -, -, hreads, htodo⟩ := h
  obtain ⟨s, q, ⟨prog, current⟩⟩ := d
  intro c' hc
  cases hc with
  | sender hturn =>
      subst hsender hqueue
      exact hstuck _ (.sender hturn)
  | send k hreq hpos hle hint =>
      subst hsender hqueue
      exact hstuck _ (.send k hreq hpos hle hint)
  | recv k hreq hpos hle hint havail =>
      subst hsender hqueue hcurrent
      exact hstuck _ (.recv k hreq hpos hle hint havail)
  | receiver hturn =>
      cases hturn with
      | start =>
          subst hsender hqueue hcurrent
          cases rest with
          | nil => exact absurd htodo (by simp)
          | cons msg later =>
              cases hreads with
              | recv hlen hnext => exact hstuck _ (.start (hlen ▸ msg.size_lt))
      | finish hreq =>
          subst hsender hqueue hcurrent
          obtain ⟨msg, later, rfl, -, -⟩ := htodo
          cases hreads with
          | recv hlen hnext => exact hstuck _ (.finish hreq)

/-- Where neither end can step, the receiver has read everything. -/
theorem Follows.done (h : d.Follows c sends a) (hstuck : ∀ d', ¬ Step d d') :
    d.reader = ⟨.ret a, none⟩ ∧ d.queue = [] ∧ d.sender.todo = [] ∧ d.sender.current = none := by
  have hend := h.stuck hstuck
  obtain ⟨ch, hrefines⟩ := h.refines
  obtain ⟨htodo, hcur⟩ := hrefines.sender_done hend
  have hsent : c.sender.moved.length = (sends.map (fun m => m.bytes.length)).sum := by
    have hsizes : c.sender.sizes = sends.map (fun m => m.bytes.length) := by
      rw [← h.spans]
      simp [Side.sizes, Side.spans, Function.comp_def]
    rw [Side.moved_length htodo hcur, hsizes]
  have htaken : c.receiver.moved.length ≤ ch.taken := by
    rw [hrefines.taken, List.length_take]
    exact min_le_left _ _
  have hpending : c.queue.length = ch.sent.length - ch.taken := by
    rw [hrefines.pending, Channel.pending, List.length_drop]
  rw [hrefines.sent] at hsent
  rcases hrefines.receiver_done hend with ⟨htodo', hcur'⟩ | ⟨hempty, m, t, hcur', hlt⟩
  · have hreceived := Side.moved_length htodo' hcur'
    rw [h.sizes] at hreceived
    obtain ⟨done, rest, -, -, hreads, hleft⟩ := h.reading
    rw [← h.current, hcur', htodo'] at hleft
    obtain rfl : rest = [] := List.map_eq_nil_iff.1 hleft.symm
    refine ⟨?_, ?_, h.sender ▸ htodo, h.sender ▸ hcur⟩
    · have hprog := hreads.nil_inv
      have hnone : d.reader.current = none := h.current.symm.trans hcur'
      cases hreader : d.reader with
      | mk prog current =>
          rw [hreader] at hprog hnone
          rw [show prog = .ret a from hprog, show current = none from hnone]
    · rw [← h.queue, ← List.length_eq_zero_iff]
      omega
  · -- the receiver waits for bytes of a message, but all of them have been sent
    have hmore := hrefines.receiver.moved_lt hcur' hlt
    rw [hempty, List.length_nil] at hpending
    rw [h.sizes, hrefines.taken, List.length_take] at hmore
    omega

theorem no_infinite_run {prog : RecvProg Fault α} (h : Reads prog (sends.map Span.bytes) a) :
    ¬ ∃ run : ℕ → Delivery α, run 0 = start sends prog ∧ ∀ n, Step (run n) (run (n + 1)) := by
  rintro ⟨run, hzero, hrun⟩
  have hfirst := follows_start h
  generalize Connection.start sends (sends.map Span.blanked) = c₀ at hfirst
  have hwork : ∀ n, ∃ c, (run n).Follows c sends a ∧
      n + (c.sender.work + c.receiver.work) ≤ c₀.sender.work + c₀.receiver.work := by
    intro n
    induction n with
    | zero => exact ⟨c₀, hzero ▸ hfirst, by rw [Nat.zero_add]⟩
    | succ n ih =>
        obtain ⟨c, hfollows, hle⟩ := ih
        obtain ⟨c', hc, hfollows'⟩ := hfollows.step (hrun n)
        obtain ⟨ch, hrefines⟩ := hfollows.refines
        have hlt := hc.work_lt hrefines
        exact ⟨c', hfollows', by omega⟩
  obtain ⟨c, -, hle⟩ := hwork (c₀.sender.work + c₀.receiver.work + 1)
  omega

end Follows

end Delivery

/-! ## Receiving over MPI -/

/-- Short messages arrive over MPI as they are. -/
theorem reads_mpi {α : Type} {p : RecvProg Fault α} {ms : List Bytes} {a : α} (h : Reads p ms a)
    (hshort : ∀ m ∈ ms, m.length < 2 ^ 31) (later : List Bytes) :
    run MPIInterComm.recv p (ms.foldl (fun q m => MPIInterComm.send m q) [] ++ later) =
      (ms.map List.length, later, some (.ok a)) := by
  rw [channel_eq]
  induction h with
  | ret a => rfl
  | @recv n k m ms a hlen _ ih =>
      have hm : m.length < 2 ^ 31 := hshort m (List.mem_cons_self ..)
      have htake := recv_send m (ms.flatMap (fun m => MPIInterComm.send m []) ++ later)
      rw [received_of_lt hm, hlen] at htake
      rw [List.flatMap_cons, List.append_assoc, run_recv_some htake,
        ih (fun m' hm' => hshort m' (List.mem_cons_of_mem _ hm')), List.map_cons, hlen]

/-! ## The regions of a rank -/

/-- What a client receives over one connection in as many calls of `query`. -/
def recvRegions : ℕ → RecvProg Fault (List SimState)
  | 0 => return []
  | n + 1 => do
      let r ← recvRegion
      let regions ← recvRegions n
      return r :: regions

section Regions

variable {simRank : Int32}

theorem reads_recvRegions (qs : List (Snapshot simRank)) :
    Reads (recvRegions qs.length) (qs.flatMap Snapshot.messages) (qs.map Snapshot.region) := by
  induction qs with
  | nil => exact .ret []
  | cons q qs ih =>
      rw [List.flatMap_cons, List.map_cons]
      refine q.reads_messages.bind ?_
      rw [← List.append_nil (qs.flatMap Snapshot.messages)]
      exact ih.bind (.ret _)

theorem DataArray.bytes_lt (mem : Memory) {a : DataArray} (h : a.Sized) :
    (a.bytes mem).length < 2 ^ 64 := by
  rw [a.bytes_length mem h]
  exact a.numBytes.toNat_lt

/-- Every message of the buffers is an object in memory. -/
theorem sendBuffers_lt {mem : Memory} {order : List (Sigma fun _ : StdString => Buffer)}
    (h : Sendable order) {msgs : List Bytes} (hmsgs : sendBuffers mem order = .ok msgs) :
    ∀ m ∈ msgs, m.length < 2 ^ 64 := by
  induction order generalizing msgs with
  | nil =>
      obtain rfl := Except.ok.inj hmsgs
      exact fun m hm => absurd hm (by simp)
  | cons e es ih =>
      obtain ⟨-, a, ha, hsized⟩ := h e (List.mem_cons_self ..)
      have hes : Sendable es := fun x hx => h x (List.mem_cons_of_mem _ hx)
      obtain ⟨rest, hrest, -⟩ := reads_recvBuffers mem es hes SimState.empty
      have hall : sendBuffers mem (e :: es) = .ok ([leBytes 8 (e.2.headerBytes a).length,
          e.2.headerBytes a, a.bytes mem] ++ rest) := by
        rw [sendBuffers, Buffer.send_eq mem ha, hrest]
        rfl
      obtain rfl := Except.ok.inj (hall.symm.trans hmsgs)
      have hheader := e.2.headerBytes_lt a
      intro m hm
      rcases List.mem_append.1 hm with hm | hm
      · simp only [List.mem_cons, List.not_mem_nil, or_false] at hm
        rcases hm with rfl | rfl | rfl
        · rw [leBytes_length]
          norm_num
        · omega
        · exact a.bytes_lt mem hsized
      · exact ih hes hrest m hm

theorem Snapshot.messages_lt (q : Snapshot simRank) : ∀ m ∈ q.messages, m.length < 2 ^ 64 := by
  have hsends := q.sends_eq
  obtain ⟨bufs, hbufs, -⟩ := reads_recvBuffers q.mem q.order q.sendable SimState.empty
  have hbuffers := sendBuffers_lt q.sendable hbufs
  have hheader : (SimStateHeader.ofState q.state).toBytes.length < 2 ^ 64 := by
    rw [SimStateHeader.toBytes_length]
    decide
  intro m hm
  by_cases hflag : (SimStateHeader.ofState q.state).hasParticles ≠ 0
  · obtain ⟨a, ha, hsized⟩ := q.particles_array hflag
    have hall : q.sends = .ok ((SimStateHeader.ofState q.state).toBytes :: (bufs ++
        [q.state.particles.headerBytes a, a.bytes q.mem])) := by
      simp only [sends, handleQuerySends, hbufs, if_pos hflag, Particles.send_eq q.mem ha]
      rfl
    rw [← Except.ok.inj (hall.symm.trans hsends)] at hm
    simp only [List.mem_cons, List.mem_append, List.not_mem_nil, or_false] at hm
    rcases hm with rfl | hm | rfl | rfl
    · exact hheader
    · exact hbuffers m hm
    · rw [Particles.headerBytes_length]
      norm_num
    · exact a.bytes_lt q.mem hsized
  · have hall : q.sends = .ok ((SimStateHeader.ofState q.state).toBytes :: bufs) := by
      simp only [sends, handleQuerySends, hbufs, if_neg hflag]
      rfl
    rw [← Except.ok.inj (hall.symm.trans hsends)] at hm
    rcases List.mem_cons.1 hm with rfl | hm
    · exact hheader
    · exact hbuffers m hm

/-- The messages of a snapshot in memory. -/
def Snapshot.spans (q : Snapshot simRank) : List Span :=
  q.messages.attach.map (fun m => ⟨m.1, q.messages_lt m.1 m.2⟩)

theorem Snapshot.spans_bytes (q : Snapshot simRank) : q.spans.map Span.bytes = q.messages := by
  rw [Snapshot.spans, List.map_map]
  exact List.attach_map_subtype_val q.messages

theorem spans_bytes (qs : List (Snapshot simRank)) :
    (qs.flatMap Snapshot.spans).map Span.bytes = qs.flatMap Snapshot.messages := by
  rw [List.map_flatMap]
  exact congrArg (fun f => qs.flatMap f) (funext Snapshot.spans_bytes)

end Regions

open Delivery

/-- **Regions over any transport.** A rank that answers any number of calls of `query` over sockets,
    and a client that makes them, come to an end however the system cuts up the bytes and whichever
    of the two goes ahead; the client then has the regions of the rank, and no byte is left over.
    Over MPI, messages below 2^31 bytes bring it the same regions. -/
theorem regions_over_transports (simRank : Int32) (qs : List (Snapshot simRank)) :
    (∀ d, Reaches (start (qs.flatMap Snapshot.spans) (recvRegions qs.length)) d →
      (∀ d', ¬ Step d d') →
        d.reader = ⟨.ret (qs.map Snapshot.region), none⟩ ∧ d.queue = [] ∧ d.sender.todo = [] ∧
          d.sender.current = none) ∧
    (¬ ∃ run : ℕ → Delivery (List SimState),
      run 0 = start (qs.flatMap Snapshot.spans) (recvRegions qs.length) ∧
        ∀ n, Step (run n) (run (n + 1))) ∧
    ((∀ m ∈ qs.flatMap Snapshot.messages, m.length < 2 ^ 31) → ∀ later,
      run MPIInterComm.recv (recvRegions qs.length)
          ((qs.flatMap Snapshot.messages).foldl (fun q m => MPIInterComm.send m q) [] ++ later) =
        ((qs.flatMap Snapshot.messages).map List.length, later,
          some (.ok (qs.map Snapshot.region)))) := by
  have hreads := reads_recvRegions qs
  have hspans : Reads (recvRegions qs.length) ((qs.flatMap Snapshot.spans).map Span.bytes)
      (qs.map Snapshot.region) := by
    rw [spans_bytes]
    exact hreads
  refine ⟨?_, no_infinite_run hspans, reads_mpi hreads⟩
  intro d hd hstuck
  obtain ⟨c, hfollows⟩ := Follows.of_reaches hspans hd
  exact hfollows.done hstuck

theorem bufferB_lt : ([98] : Bytes).length < 2 ^ 62 := by decide

/-- A buffer `b` of one byte, and one particle of 8 bytes. -/
def byteAndParticle : List SetCall :=
  [.buffer ⟨[98], bufferB_lt⟩ 1 0, .particles 1 0 8 0]

theorem byteAndParticle_lt :
    (buildState 0 byteAndParticle).buffers.entries.length < 2 ^ 64 := by
  decide

/-- A rank whose memory is full of sevens. -/
def sevens : Snapshot 0 where
  calls := byteAndParticle
  mem := fun _ => 7
  order := (buildState 0 byteAndParticle).buffers.entries
  iterates := List.Perm.refl _
  size_lt := byteAndParticle_lt

/-- Two of its regions come over MPI, and leave the message behind them. -/
theorem regions_over_transports_twice :
    run MPIInterComm.recv (recvRegions 2)
        (([sevens, sevens].flatMap Snapshot.messages).foldl (fun q m => MPIInterComm.send m q) [] ++
          [[9]]) =
      (([sevens, sevens].flatMap Snapshot.messages).map List.length, [[9]],
        some (.ok [sevens.region, sevens.region])) :=
  (regions_over_transports 0 [sevens, sevens]).2.2 (by decide +kernel) [[9]]

end LibIS
