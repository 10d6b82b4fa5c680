import LibIS.InterComm.Accept
import LibIS.InterComm.Connect
import LibIS.Library.Channel
import LibIS.Library.Threads

set_option autoImplicit false

/-! # Wiring two groups of ranks: the system

`M` connectors and `N` acceptors, each running its half of the socket setup in its own time. A
connect completes when the connection is queued on the listening socket, and an acceptor takes it from
there when it likes. Receives are answered in full. A socket is known by one number to both of its
ends, and the connection is the socket that the connector has made. -/

open ByteCodec

namespace LibIS

namespace Wiring

/-- What is fixed in a run: the sizes of the two groups, and what the acceptors have published. -/
structure Setup where
  M : ℕ
  N : ℕ
  alloc : Allocator
  hostname : ℕ → Bytes
  listenPort : ℕ → ℕ
  hostPortName : ℕ → StdString
  one_le_M : 1 ≤ M
  M_lt : M < 2 ^ 31
  one_le_N : 1 ≤ N
  N_lt : N < 2 ^ 31
  /-- `gethostname` fills at most 255 characters -/
  hostname_length : ∀ c, c < N → (hostname c).length ≤ 255
  no_colon : ∀ c, c < N → 58 ∉ hostname c
  no_zero : ∀ c, c < N → 0 ∉ hostname c
  one_le_port : ∀ c, c < N → 1 ≤ listenPort c
  port_le : ∀ c, c < N → listenPort c ≤ 65535
  listen : ∀ c, c < N → listenName (hostname c) (listenPort c) = .ok (hostPortName c)
  distinct : ∀ c c', c < N → c' < N → hostPortName c = hostPortName c' → c = c'

/-- A socket of a connector: where it has been dialled, the acceptor that this has reached, and the
    bytes each way. -/
structure Conn where
  source : ℕ
  server : Bytes
  port : ℕ
  target : Option ℕ
  up : Channel UInt8
  down : Channel UInt8

namespace Conn

/-- `socket()`. -/
def new (source : ℕ) : Conn :=
  ⟨source, [], 0, none, .empty, .empty⟩

def reach (conn : Conn) (server : Bytes) (port c : ℕ) : Conn :=
  { conn with
    server := server
    port := port
    target := some c }

def sendUp (data : Bytes) (conn : Conn) : Conn :=
  { conn with up := conn.up.pushAll data }

def recvUp (size : ℕ) (conn : Conn) : Conn :=
  { conn with up := conn.up.advance size }

def sendDown (data : Bytes) (conn : Conn) : Conn :=
  { conn with down := conn.down.pushAll data }

def recvDown (size : ℕ) (conn : Conn) : Conn :=
  { conn with down := conn.down.advance size }

end Conn

/-- All that the ranks share. -/
structure World where
  conns : List Conn
  /-- the connections that have been queued on each listening socket -/
  backlog : ℕ → Channel ℕ
  /-- from each acceptor to acceptor 0 -/
  mail : ℕ → Channel Bytes
  /-- what acceptor 0 has broadcast, and how much of it each other acceptor has got -/
  cast : List Bytes
  heard : ℕ → ℕ
  /-- how many barriers each connector has entered -/
  arrived : ℕ → ℕ

namespace World

def mapConn (w : World) (k : ℕ) (f : Conn → Conn) : World :=
  { w with conns := w.conns.modify k f }

/-- The connections that are queued at an acceptor and have not been accepted. -/
def queued (w : World) (c : ℕ) : List ℕ :=
  (w.backlog c).pending

end World

/-- The ranks. -/
inductive Party (X : Setup) where
  | connector (s : Fin X.M)
  | acceptor (c : Fin X.N)
deriving DecidableEq

/-- An operation of connector `s`. A socket, a lookup or a connect may fail. What is dialled with
    the host and the port that an acceptor has published reaches this acceptor. -/
def performConnector (X : Setup) (s : ℕ) : (o : ConnectOp) → World → o.Resp → World → Prop
  | .socket, w, r, w' =>
      (r = -1 ∧ w' = w) ∨
        (r = w.conns.length ∧ w' = { w with conns := w.conns ++ [Conn.new s] })
  | .lookup servername, w, r, w' => (r = none ∨ r = some servername) ∧ w' = w
  | .connect fd server port, w, r, w' =>
      (r = false ∧ w' = w) ∨
        ∃ (k c : ℕ) (conn : Conn), fd = k ∧ w.conns[k]? = some conn ∧ conn.target = none ∧
          c < X.N ∧ X.hostname c = server ∧ X.listenPort c = port ∧ r = true ∧
          w' = { w.mapConn k (fun conn => conn.reach server port c) with
            backlog := Function.update w.backlog c ((w.backlog c).push k) }
  | .send fd data, w, _, w' => ∃ k : ℕ, fd = k ∧ w' = w.mapConn k (Conn.sendUp data)
  | .recv fd size, w, r, w' =>
      ∃ (k : ℕ) (conn : Conn), fd = k ∧ w.conns[k]? = some conn ∧
        size ≤ conn.down.pending.length ∧ r = conn.down.pending.take size ∧
        w' = w.mapConn k (Conn.recvDown size)
  | .arrive, w, _, w' =>
      w' = { w with arrived := Function.update w.arrived s (w.arrived s + 1) }
  | .leave, w, _, w' => (∀ s', s' < X.M → w.arrived s ≤ w.arrived s') ∧ w' = w
  | .throw _, _, _, _ => False

/-- An operation of acceptor `c`. -/
def performAcceptor (c : ℕ) : (o : AcceptOp) → World → o.Resp → World → Prop
  | .mpiRecv size source, w, r, w' =>
      (w.mail source).next? = some r ∧ r.length ≤ size ∧
        w' = { w with mail := Function.update w.mail source (w.mail source).pop }
  | .mpiSend data dest, w, _, w' =>
      dest = 0 ∧ w' = { w with mail := Function.update w.mail c ((w.mail c).push data) }
  | .bcast buf, w, r, w' =>
      if c = 0 then
        r = buf ∧ w' = { w with cast := w.cast ++ [buf] }
      else
        w.cast[w.heard c]? = some r ∧
          w' = { w with heard := Function.update w.heard c (w.heard c + 1) }
  | .accept, w, r, w' =>
      ∃ k : ℕ, (w.backlog c).next? = some k ∧ r = k ∧
        w' = { w with backlog := Function.update w.backlog c (w.backlog c).pop }
  | .recv fd size, w, r, w' =>
      ∃ (k : ℕ) (conn : Conn), fd = k ∧ w.conns[k]? = some conn ∧
        size ≤ conn.up.pending.length ∧ r = conn.up.pending.take size ∧
        w' = w.mapConn k (Conn.recvUp size)
  | .send fd data, w, _, w' => ∃ k : ℕ, fd = k ∧ w' = w.mapConn k (Conn.sendDown data)
  | .throw _, _, _, _ => False
  | .overrun, _, _, _ => False

/-- The ranks and their programs. The name that is given to the connectors is that of acceptor 0. -/
@[reducible] def system (X : Setup) : ThreadSystem (Party X) World where
  Op
    | .connector _ => ConnectOp
    | .acceptor _ => AcceptOp
  Resp
    | .connector _ => ConnectOp.Resp
    | .acceptor _ => AcceptOp.Resp
  Label
    | .connector _ => Connector.Label
    | .acceptor _ => Acceptor.Label
  code
    | .connector s => Connector.connect X.alloc s X.M (X.hostPortName 0)
    | .acceptor c => Acceptor.accept c X.N (X.hostPortName c)
  perform
    | .connector s => performConnector X s
    | .acceptor c => performAcceptor c

/-- No socket has been made. -/
def World.init : World where
  conns := []
  backlog := fun _ => .empty
  mail := fun _ => .empty
  cast := []
  heard := fun _ => 0
  arrived := fun _ => 0

/-- Where each rank starts. -/
def startLabels (X : Setup) : (p : Party X) → (system X).Label p
  | .connector _ => .start
  | .acceptor _ => .start

end Wiring

end LibIS
