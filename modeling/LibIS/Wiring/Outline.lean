import LibIS.Wiring.Invariant

set_option autoImplicit false

/-! # Wiring two groups of ranks: the proof outline

What each rank relies on, and what it knows between two rounds of its code. A connection belongs to
the connector that has made it until it is accepted; from then on the connector sends and the
acceptor receives on one half of it, and the other way round on the other half. -/

open ByteCodec ThreadSystem

namespace LibIS

namespace Wiring

/-! ## What the ranks rely on -/

namespace Conn

/-- What the acceptor does to a connection. -/
structure FromAcceptor (conn conn' : Conn) : Prop where
  ends : conn.SameEnds conn'
  upSent : conn'.up.sent = conn.up.sent
  downSent : conn.down.sent <+: conn'.down.sent
  downTaken : conn'.down.taken = conn.down.taken

/-- What the connector does to a connection. -/
structure FromConnector (conn conn' : Conn) : Prop where
  ends : conn.SameEnds conn'
  upSent : conn.up.sent <+: conn'.up.sent
  upTaken : conn'.up.taken = conn.up.taken
  downSent : conn'.down.sent = conn.down.sent

theorem FromAcceptor.refl (conn : Conn) : conn.FromAcceptor conn :=
  ⟨.refl conn, rfl, List.prefix_refl _, rfl⟩

theorem FromAcceptor.trans {conn₁ conn₂ conn₃ : Conn} (h : conn₁.FromAcceptor conn₂)
    (h' : conn₂.FromAcceptor conn₃) : conn₁.FromAcceptor conn₃ :=
  ⟨h.ends.trans h'.ends, h'.upSent.trans h.upSent, h.downSent.trans h'.downSent,
    h'.downTaken.trans h.downTaken⟩

theorem FromConnector.refl (conn : Conn) : conn.FromConnector conn :=
  ⟨.refl conn, List.prefix_refl _, rfl, rfl⟩

theorem FromConnector.trans {conn₁ conn₂ conn₃ : Conn} (h : conn₁.FromConnector conn₂)
    (h' : conn₂.FromConnector conn₃) : conn₁.FromConnector conn₃ :=
  ⟨h.ends.trans h'.ends, h.upSent.trans h'.upSent, h'.upTaken.trans h.upTaken,
    h'.downSent.trans h.downSent⟩

end Conn

/-- What the other ranks do to the view of connector `s`. -/
structure ConnectorRely (s : ℕ) (w w' : World) : Prop where
  own : ∀ (k : ℕ) (conn : Conn), w.conns[k]? = some conn → conn.source = s →
    ∃ conn' : Conn, w'.conns[k]? = some conn' ∧ conn.FromAcceptor conn'
  old : ∀ (k : ℕ) (conn' : Conn), w'.conns[k]? = some conn' → conn'.source = s →
    ∃ conn : Conn, w.conns[k]? = some conn ∧ conn.source = s
  arrived : w'.arrived s = w.arrived s
  passed : ∀ s', w.arrived s' ≤ w'.arrived s'

/-- What the other ranks do to the view of acceptor `c`. -/
structure AcceptorRely (c : ℕ) (w w' : World) : Prop where
  own : ∀ (k : ℕ) (conn : Conn), w.conns[k]? = some conn → conn.target = some c →
    ∃ conn' : Conn, w'.conns[k]? = some conn' ∧ conn.FromConnector conn'
  sent : (w.backlog c).sent <+: (w'.backlog c).sent
  taken : (w'.backlog c).taken = (w.backlog c).taken
  mail : c = 0 → ∀ i, (w'.mail i).taken = (w.mail i).taken
  letter : c ≠ 0 → (w'.mail c).sent = (w.mail c).sent
  cast : c = 0 → w'.cast = w.cast
  heard : c ≠ 0 → w'.heard c = w.heard c

theorem ConnectorRely.refl (s : ℕ) (w : World) : ConnectorRely s w w :=
  ⟨fun _ conn h _ => ⟨conn, h, .refl conn⟩, fun _ conn h hs => ⟨conn, h, hs⟩, rfl,
    fun _ => le_refl _⟩

theorem ConnectorRely.trans {s : ℕ} {w₁ w₂ w₃ : World} (h : ConnectorRely s w₁ w₂)
    (h' : ConnectorRely s w₂ w₃) : ConnectorRely s w₁ w₃ where
  own k conn hconn hs := by
    obtain ⟨conn₂, hconn₂, hfrom₂⟩ := h.own k conn hconn hs
    obtain ⟨conn₃, hconn₃, hfrom₃⟩ := h'.own k conn₂ hconn₂ (hfrom₂.ends.source.trans hs)
    exact ⟨conn₃, hconn₃, hfrom₂.trans hfrom₃⟩
  old k conn₃ hconn₃ hs := by
    obtain ⟨conn₂, hconn₂, hs₂⟩ := h'.old k conn₃ hconn₃ hs
    exact h.old k conn₂ hconn₂ hs₂
  arrived := h'.arrived.trans h.arrived
  passed s' := (h.passed s').trans (h'.passed s')

theorem AcceptorRely.refl (c : ℕ) (w : World) : AcceptorRely c w w :=
  ⟨fun _ conn h _ => ⟨conn, h, .refl conn⟩, List.prefix_refl _, rfl, fun _ _ => rfl, fun _ => rfl,
    fun _ => rfl, fun _ => rfl⟩

theorem AcceptorRely.trans {c : ℕ} {w₁ w₂ w₃ : World} (h : AcceptorRely c w₁ w₂)
    (h' : AcceptorRely c w₂ w₃) : AcceptorRely c w₁ w₃ where
  own k conn hconn htarget := by
    obtain ⟨conn₂, hconn₂, hfrom₂⟩ := h.own k conn hconn htarget
    obtain ⟨conn₃, hconn₃, hfrom₃⟩ := h'.own k conn₂ hconn₂ (hfrom₂.ends.target.trans htarget)
    exact ⟨conn₃, hconn₃, hfrom₂.trans hfrom₃⟩
  sent := h.sent.trans h'.sent
  taken := h'.taken.trans h.taken
  mail hc i := (h'.mail hc i).trans (h.mail hc i)
  letter hc := (h'.letter hc).trans (h.letter hc)
  cast hc := (h'.cast hc).trans (h.cast hc)
  heard hc := (h'.heard hc).trans (h.heard hc)

/-- What a rank relies on. -/
def Rely (X : Setup) : Party X → World → World → Prop
  | .connector s => ConnectorRely s
  | .acceptor c => AcceptorRely c

/-! ## When an operation is due -/

/-- Connection `k` leads from connector `s` to acceptor `c`. -/
structure Linked (w : World) (s c k : ℕ) (conn : Conn) : Prop where
  get : w.conns[k]? = some conn
  source : conn.source = s
  target : conn.target = some c

theorem Linked.mapConn {w : World} {s c k : ℕ} {conn : Conn} (h : Linked w s c k conn)
    {f : Conn → Conn} (hsame : conn.SameEnds (f conn)) :
    Linked (w.mapConn k f) s c k (f conn) :=
  ⟨World.mapConn_self h.get, hsame.source.trans h.source, hsame.target.trans h.target⟩

/-- Bytes move on this connection or another one. -/
theorem Linked.forward {w : World} {s c k k' : ℕ} {conn conn' : Conn} (h : Linked w s c k' conn')
    (hk : w.conns[k]? = some conn) {f : Conn → Conn} (hsame : conn.SameEnds (f conn)) :
    ∃ conn'' : Conn, Linked (w.mapConn k f) s c k' conn'' := by
  obtain ⟨conn'', hget, hends⟩ := World.mapConn_forward Conn.SameEnds.refl hk hsame h.get
  exact ⟨conn'', hget, hends.source.trans h.source, hends.target.trans h.target⟩

theorem Linked.back {w : World} {s c k k' : ℕ} {conn conn' : Conn} {f : Conn → Conn}
    (h : Linked (w.mapConn k f) s c k' conn') (hk : w.conns[k]? = some conn)
    (hsame : conn.SameEnds (f conn)) : ∃ old : Conn, Linked w s c k' old := by
  obtain ⟨old, hget, hends⟩ := World.mapConn_back hk hsame h.get
  exact ⟨old, hget, hends.source.symm.trans h.source, hends.target.symm.trans h.target⟩

/-- Connector `s` may dial acceptor `c`: it has not done so, and if this is acceptor 0, its group
    has been reached. -/
structure MayDial (X : Setup) (w : World) (s c : ℕ) : Prop where
  new : ∀ (k : ℕ) (conn : Conn), ¬ Linked w s c k conn
  group : c = 0 → w.arrived s ≤ s / socketMaxSimultaneousConnections ∧
    ∀ s', s' < X.M → s / socketMaxSimultaneousConnections ≤ w.arrived s'

/-- An operation of connector `s`. -/
def readyConnector (X : Setup) (s : ℕ) : ConnectOp → World → Prop
  | .connect fd server port, w => ∀ (k : ℕ) (conn : Conn), fd = k → w.conns[k]? = some conn →
      conn.source = s ∧ ∀ c, c < X.N → X.hostname c = server → X.listenPort c = port →
        MayDial X w s c
  | .send fd data, w => ∃ (k c : ℕ) (conn : Conn), fd = k ∧ Linked w s c k conn ∧
      conn.up.sent ++ data <+: X.hello s c
  | .recv fd _, w => ∃ (k c : ℕ) (conn : Conn), fd = k ∧ Linked w s c k conn
  | .arrive, w => w.arrived s < s / socketMaxSimultaneousConnections ∨
      ∀ (k : ℕ) (conn : Conn), k ∈ w.queued 0 → w.conns[k]? = some conn → conn.source ≠ s
  | _, _ => True

/-- An operation of acceptor `c`. It never writes past the end of the vector of its sockets. -/
def readyAcceptor (X : Setup) (c : ℕ) : AcceptOp → World → Prop
  | .mpiRecv _ _, _ => c = 0
  | .mpiSend data _, w => c ≠ 0 ∧ (w.mail c).sent ++ [data] <+: X.letter c
  | .bcast buf, w => c = 0 → w.cast ++ [buf] <+: [intBytes (Int32.ofNat X.M)]
  | .accept, _ => True
  | .recv fd _, w => ∃ (k s : ℕ) (conn : Conn), fd = k ∧ Linked w s c k conn ∧ k ∉ w.queued c
  | .send fd data, w => ∃ (k s : ℕ) (conn : Conn), fd = k ∧ Linked w s c k conn ∧
      k ∉ w.queued c ∧ conn.down.sent ++ data <+: X.answer c
  | .throw _, _ => True
  | .overrun, _ => False

/-- An operation of a rank. -/
def ready (X : Setup) : (p : Party X) → (system X).Op p → World → Prop
  | .connector s => readyConnector X s
  | .acceptor c => readyAcceptor X c

/-! ## The operations keep the invariant, and what the others rely on -/

section Guarantee

variable {X : Setup} {w w' : World} {s c k : ℕ} {conn : Conn}

/-- A connector changes a connection of its own. -/
theorem rely_of_connector (hk : w.conns[k]? = some conn) (hs : conn.source = s) {f : Conn → Conn}
    (hfrom : conn.FromConnector (f conn)) :
    (∀ s', s' ≠ s → ConnectorRely s' w (w.mapConn k f)) ∧
      ∀ c, AcceptorRely c w (w.mapConn k f) := by
  constructor
  · intro s' hne
    refine { ConnectorRely.refl s' w with own := ?_, old := ?_ }
    · intro k' conn' hconn' hs'
      have hkk : k ≠ k' := by
        rintro rfl
        rw [hk] at hconn'
        exact hne (hs'.symm.trans (Option.some.inj hconn' ▸ hs))
      exact ⟨conn', (World.mapConn_of_ne hkk).trans hconn', .refl conn'⟩
    · intro k' conn' hconn' hs'
      obtain ⟨old, hold, hends⟩ := World.mapConn_back hk hfrom.ends hconn'
      exact ⟨old, hold, hends.source.symm.trans hs'⟩
  · intro c
    exact { AcceptorRely.refl c w with
      own := fun k' conn' hconn' _ => World.mapConn_forward Conn.FromConnector.refl hk hfrom hconn' }

/-- An acceptor changes a connection that leads to it. -/
theorem rely_of_acceptor (hk : w.conns[k]? = some conn) (hc : conn.target = some c)
    {f : Conn → Conn} (hfrom : conn.FromAcceptor (f conn)) :
    (∀ s, ConnectorRely s w (w.mapConn k f)) ∧
      ∀ c', c' ≠ c → AcceptorRely c' w (w.mapConn k f) := by
  constructor
  · intro s
    refine { ConnectorRely.refl s w with own := ?_, old := ?_ }
    · exact fun k' conn' hconn' _ =>
        World.mapConn_forward Conn.FromAcceptor.refl hk hfrom hconn'
    · intro k' conn' hconn' hs'
      obtain ⟨old, hold, hends⟩ := World.mapConn_back hk hfrom.ends hconn'
      exact ⟨old, hold, hends.source.symm.trans hs'⟩
  · intro c' hne
    refine { AcceptorRely.refl c' w with own := ?_ }
    intro k' conn' hconn' hc'
    have hkk : k ≠ k' := by
      rintro rfl
      rw [hk] at hconn'
      obtain rfl := Option.some.inj hconn'
      exact hne (Option.some.inj (hc'.symm.trans hc))
    exact ⟨conn', (World.mapConn_of_ne hkk).trans hconn', .refl conn'⟩

theorem performConnector_rely {o : ConnectOp} {r : o.Resp} (hready : readyConnector X s o w)
    (h : performConnector X s o w r w') :
    (∀ s', s' ≠ s → ConnectorRely s' w w') ∧ ∀ c, AcceptorRely c w w' := by
  cases o with
  | socket =>
      rcases h with ⟨-, rfl⟩ | ⟨-, rfl⟩
      · exact ⟨fun s' _ => .refl s' w', fun c => .refl c w'⟩
      · have hkeep : ∀ {k' : ℕ} {conn' : Conn}, w.conns[k']? = some conn' →
            (w.conns ++ [Conn.new s])[k']? = some conn' := fun hconn' =>
          (List.prefix_append _ _).getElem?_eq_some hconn'
        refine ⟨fun s' hne => ?_, fun c => ?_⟩
        · refine { ConnectorRely.refl s' w with own := ?_, old := ?_ }
          · exact fun k' conn' hconn' _ => ⟨conn', hkeep hconn', .refl conn'⟩
          · intro k' conn' hconn' hs'
            rw [List.getElem?_append] at hconn'
            split at hconn'
            · exact ⟨conn', hconn', hs'⟩
            · have hnew := List.mem_singleton.1 (List.mem_of_getElem? hconn')
              rw [hnew] at hs'
              exact absurd hs'.symm hne
        · exact { AcceptorRely.refl c w with
            own := fun k' conn' hconn' _ => ⟨conn', hkeep hconn', .refl conn'⟩ }
  | lookup servername =>
      obtain ⟨-, rfl⟩ := h
      exact ⟨fun s' _ => .refl s' w', fun c => .refl c w'⟩
  | connect fd server port =>
      rcases h with ⟨-, rfl⟩ | ⟨k, c, conn, hfd, hk, hnone, hc, hhost, hport, -, rfl⟩
      · exact ⟨fun s' _ => .refl s' w', fun c => .refl c w'⟩
      · -- the socket is the connector's own and leads to no acceptor yet
        obtain ⟨hsource, -⟩ := hready k conn hfd hk
        refine ⟨fun s' hne => ?_, fun c' => ?_⟩
        · refine { ConnectorRely.refl s' w with own := ?_, old := ?_ }
          · intro k' conn' hconn' hs'
            have hkk : k ≠ k' := by
              rintro rfl
              rw [hk] at hconn'
              exact hne (hs'.symm.trans (Option.some.inj hconn' ▸ hsource))
            exact ⟨conn', (World.mapConn_of_ne hkk).trans hconn', .refl conn'⟩
          · intro k' conn' hconn' hs'
            rcases World.mapConn_cases hk hconn' with ⟨rfl, rfl⟩ | ⟨-, hold⟩
            · exact ⟨conn, hk, hs'⟩
            · exact ⟨conn', hold, hs'⟩
        · refine { AcceptorRely.refl c' w with own := ?_, sent := ?_, taken := ?_ }
          · intro k' conn' hconn' hc'
            have hkk : k ≠ k' := by
              rintro rfl
              rw [hk] at hconn'
              obtain rfl := Option.some.inj hconn'
              rw [hnone] at hc'
              exact absurd hc' (by simp)
            exact ⟨conn', (World.mapConn_of_ne hkk).trans hconn', .refl conn'⟩
          · by_cases hcc : c' = c
            · subst hcc
              simp only [Function.update_self, Channel.push_sent]
              exact List.prefix_append _ _
            · simp only [Function.update_of_ne hcc]
              exact List.prefix_refl _
          · by_cases hcc : c' = c
            · subst hcc
              simp only [Function.update_self, Channel.push_taken]
            · simp only [Function.update_of_ne hcc]
  | send fd data =>
      obtain ⟨k, c, conn, hfd, hlinked, -⟩ := hready
      obtain ⟨k', hfd', rfl⟩ := h
      obtain rfl : k = k' := Int.ofNat.inj (hfd.symm.trans hfd')
      exact rely_of_connector hlinked.get hlinked.source
        ⟨⟨rfl, rfl, rfl, rfl⟩, List.prefix_append _ _, rfl, rfl⟩
  | recv fd size =>
      obtain ⟨k, c, conn, hfd, hlinked⟩ := hready
      obtain ⟨k', conn', hfd', hk', -, -, rfl⟩ := h
      obtain rfl : k = k' := Int.ofNat.inj (hfd.symm.trans hfd')
      exact rely_of_connector hlinked.get hlinked.source
        ⟨⟨rfl, rfl, rfl, rfl⟩, List.prefix_refl _, rfl, rfl⟩
  | arrive =>
      obtain rfl := h
      refine ⟨fun s' hne => ?_, fun c => { AcceptorRely.refl c w with }⟩
      refine { ConnectorRely.refl s' w with arrived := ?_, passed := ?_ }
      · simp only [Function.update_of_ne hne]
      · intro s''
        by_cases hss : s'' = s
        · subst hss
          simp only [Function.update_self]
          exact Nat.le_succ _
        · simp only [Function.update_of_ne hss]
          exact le_refl _
  | leave =>
      obtain ⟨-, rfl⟩ := h
      exact ⟨fun s' _ => .refl s' w', fun c => .refl c w'⟩
  | throw e => exact absurd h id

theorem performConnector_inv (hinv : Inv X w) (hs : s < X.M) {o : ConnectOp} {r : o.Resp}
    (hready : readyConnector X s o w) (h : performConnector X s o w r w') : Inv X w' := by
  cases o with
  | socket =>
      rcases h with ⟨-, rfl⟩ | ⟨-, rfl⟩
      · exact hinv
      · exact hinv.newConn hs
  | lookup servername =>
      obtain ⟨-, rfl⟩ := h
      exact hinv
  | connect fd server port =>
      rcases h with ⟨-, rfl⟩ | ⟨k, c, conn, hfd, hk, hnone, hc, rfl, rfl, -, rfl⟩
      · exact hinv
      · obtain ⟨rfl, hdial⟩ := hready k conn hfd hk
        have hmay := hdial c hc rfl rfl
        exact hinv.reach hk hnone hc
          (fun k' conn' hconn' hsource htarget => hmay.new k' conn' ⟨hconn', hsource, htarget⟩)
          hmay.group
  | send fd data =>
      obtain ⟨k, c, conn, hfd, hlinked, hdata⟩ := hready
      obtain ⟨k', hfd', rfl⟩ := h
      obtain rfl : k = k' := Int.ofNat.inj (hfd.symm.trans hfd')
      have hold := hinv.conn k conn hlinked.get
      rw [← hlinked.source] at hdata
      exact hinv.mapConn hlinked.get ⟨rfl, rfl, rfl, rfl⟩
        (hold.moved hlinked.target ⟨rfl, rfl, rfl, rfl⟩ hdata (hold.down c hlinked.target))
        (fun c' hq => hinv.fresh c' k conn hq hlinked.get)
  | recv fd size =>
      obtain ⟨k, c, conn, hfd, hlinked⟩ := hready
      obtain ⟨k', conn', hfd', hk', -, -, rfl⟩ := h
      obtain rfl : k = k' := Int.ofNat.inj (hfd.symm.trans hfd')
      have hold := hinv.conn k conn hlinked.get
      exact hinv.mapConn hlinked.get ⟨rfl, rfl, rfl, rfl⟩
        (hold.moved hlinked.target ⟨rfl, rfl, rfl, rfl⟩ (hold.up c hlinked.target)
          (hold.down c hlinked.target))
        (fun c' hq => hinv.fresh c' k conn hq hlinked.get)
  | arrive =>
      obtain rfl := h
      exact hinv.arrive hready
  | leave =>
      obtain ⟨-, rfl⟩ := h
      exact hinv
  | throw e => exact absurd h id

theorem performAcceptor_rely {o : AcceptOp} {r : o.Resp} (hready : readyAcceptor X c o w)
    (h : performAcceptor c o w r w') :
    (∀ s, ConnectorRely s w w') ∧ ∀ c', c' ≠ c → AcceptorRely c' w w' := by
  cases o with
  | mpiRecv size source =>
      obtain ⟨-, -, rfl⟩ := h
      have hzero : c = 0 := hready
      refine ⟨fun s => { ConnectorRely.refl s w with }, fun c' hne => ?_⟩
      refine { AcceptorRely.refl c' w with mail := ?_, letter := ?_ }
      · exact fun hc' => absurd (hc'.trans hzero.symm) hne
      · intro _
        by_cases hcs : c' = source
        · subst hcs
          simp only [Function.update_self, Channel.pop_sent]
        · simp only [Function.update_of_ne hcs]
  | mpiSend data dest =>
      obtain ⟨-, rfl⟩ := h
      refine ⟨fun s => { ConnectorRely.refl s w with }, fun c' hne => ?_⟩
      refine { AcceptorRely.refl c' w with mail := ?_, letter := ?_ }
      · intro _ i
        by_cases hic : i = c
        · subst hic
          simp only [Function.update_self, Channel.push_taken]
        · simp only [Function.update_of_ne hic]
      · intro _
        simp only [Function.update_of_ne hne]
  | bcast buf =>
      refine ⟨fun s => ?_, fun c' hne => ?_⟩
      · simp only [performAcceptor] at h
        split at h
        · obtain ⟨-, rfl⟩ := h
          exact { ConnectorRely.refl s w with }
        · obtain ⟨-, rfl⟩ := h
          exact { ConnectorRely.refl s w with }
      · simp only [performAcceptor] at h
        split at h
        · next hzero =>
            obtain ⟨-, rfl⟩ := h
            exact { AcceptorRely.refl c' w with
              cast := fun hc' => absurd (hc'.trans hzero.symm) hne }
        · obtain ⟨-, rfl⟩ := h
          exact { AcceptorRely.refl c' w with
            heard := fun _ => by simp only [Function.update_of_ne hne] }
  | accept =>
      obtain ⟨k, -, -, rfl⟩ := h
      refine ⟨fun s => { ConnectorRely.refl s w with }, fun c' hne => ?_⟩
      exact { AcceptorRely.refl c' w with
        sent := by
          simp only [Function.update_of_ne hne]
          exact List.prefix_refl _
        taken := by simp only [Function.update_of_ne hne] }
  | recv fd size =>
      obtain ⟨k, s, conn, hfd, hlinked, -⟩ := hready
      obtain ⟨k', conn', hfd', hk', -, -, rfl⟩ := h
      obtain rfl : k = k' := Int.ofNat.inj (hfd.symm.trans hfd')
      exact rely_of_acceptor hlinked.get hlinked.target
        ⟨⟨rfl, rfl, rfl, rfl⟩, rfl, List.prefix_refl _, rfl⟩
  | send fd data =>
      obtain ⟨k, s, conn, hfd, hlinked, -⟩ := hready
      obtain ⟨k', hfd', rfl⟩ := h
      obtain rfl : k = k' := Int.ofNat.inj (hfd.symm.trans hfd')
      exact rely_of_acceptor hlinked.get hlinked.target
        ⟨⟨rfl, rfl, rfl, rfl⟩, rfl, List.prefix_append _ _, rfl⟩
  | throw e => exact absurd h id
  | overrun => exact absurd h id

theorem performAcceptor_inv (hinv : Inv X w) {o : AcceptOp} {r : o.Resp}
    (hready : readyAcceptor X c o w) (h : performAcceptor c o w r w') : Inv X w' := by
  -- an accepted connection is in no queue
  have hnot : ∀ {k s : ℕ} {conn : Conn}, Linked w s c k conn → k ∉ w.queued c →
      ∀ c', k ∉ w.queued c' := by
    intro k s conn hlinked hk c' hk'
    have htarget := hinv.target_of_queued hk' hlinked.get
    obtain rfl : c = c' := Option.some.inj (hlinked.target.symm.trans htarget)
    exact hk hk'
  cases o with
  | mpiRecv size source =>
      obtain ⟨-, -, rfl⟩ := h
      exact hinv.takeMail source
  | mpiSend data dest =>
      obtain ⟨-, rfl⟩ := h
      exact hinv.sendMail hready.2
  | bcast buf =>
      simp only [performAcceptor] at h
      split at h
      · next hzero =>
          obtain ⟨-, rfl⟩ := h
          exact { hinv with cast := hready hzero }
      · obtain ⟨-, rfl⟩ := h
        exact { hinv with }
  | accept =>
      obtain ⟨k, -, -, rfl⟩ := h
      exact hinv.accept c
  | recv fd size =>
      obtain ⟨k, s, conn, hfd, hlinked, hk⟩ := hready
      obtain ⟨k', conn', hfd', hk', -, -, rfl⟩ := h
      obtain rfl : k = k' := Int.ofNat.inj (hfd.symm.trans hfd')
      have hold := hinv.conn k conn hlinked.get
      exact hinv.mapConn hlinked.get ⟨rfl, rfl, rfl, rfl⟩
        (hold.moved hlinked.target ⟨rfl, rfl, rfl, rfl⟩ (hold.up c hlinked.target)
          (hold.down c hlinked.target))
        (fun c' hq => absurd hq (hnot hlinked hk c'))
  | send fd data =>
      obtain ⟨k, s, conn, hfd, hlinked, hk, hdata⟩ := hready
      obtain ⟨k', hfd', rfl⟩ := h
      obtain rfl : k = k' := Int.ofNat.inj (hfd.symm.trans hfd')
      have hold := hinv.conn k conn hlinked.get
      exact hinv.mapConn hlinked.get ⟨rfl, rfl, rfl, rfl⟩
        (hold.moved hlinked.target ⟨rfl, rfl, rfl, rfl⟩ (hold.up c hlinked.target) hdata)
        (fun c' hq => absurd hq (hnot hlinked hk c'))
  | throw e => exact absurd h id
  | overrun => exact absurd h id

end Guarantee

/-! ## What a connector knows -/

/-- Connector `s` has dialled the acceptors below `n`, and no other. -/
structure Dialled (s n : ℕ) (sockets : List ℤ) (w : World) : Prop where
  length : sockets.length = n
  link : ∀ c, c < n → ∃ (k : ℕ) (conn : Conn), sockets[c]? = some (k : ℤ) ∧ Linked w s c k conn
  only : ∀ (c k : ℕ) (conn : Conn), Linked w s c k conn → c < n

/-- A socket that has not been dialled. -/
def Unreached (s : ℕ) (sock : ℤ) (w : World) : Prop :=
  ∃ (k : ℕ) (conn : Conn), sock = k ∧ w.conns[k]? = some conn ∧ conn.source = s ∧ conn.target = none

/-- Acceptor 0 has answered connector `s`. -/
def Answered (s : ℕ) (w : World) : Prop :=
  ∃ (k : ℕ) (conn : Conn), Linked w s 0 k conn ∧ conn.down.sent ≠ []

/-- Connector `s` has received `t` bytes from acceptor 0. -/
def Receiving (s t : ℕ) (sock : ℤ) (w : World) : Prop :=
  Dialled s 1 [sock] w ∧ ∃ (k : ℕ) (conn : Conn), sock = k ∧ Linked w s 0 k conn ∧
    conn.down.taken = t ∧ t ≤ conn.down.sent.length

/-- The group of connector `s`. -/
abbrev groupOf (s : ℕ) : ℕ :=
  s / socketMaxSimultaneousConnections

/-- Connector `s` is in the first loop, and `j` groups are done. -/
structure RootAt (X : Setup) (s j : ℕ) (sock : ℤ) (server : Bytes) (port : ℤ)
    (remoteHosts : List StdString) (w : World) : Prop where
  le : j ≤ Connector.numGroups X.M
  arrived : w.arrived s = j
  server : server = X.hostname 0
  port : port = X.listenPort 0
  state : (j ≤ groupOf s ∧ Unreached s sock w ∧ Dialled s 0 [] w) ∨
    (groupOf s < j ∧ remoteHosts = X.others ∧ Dialled s 1 [sock] w ∧ Answered s w)

/-- Connector `s` is in the second loop, and `j` groups are done. -/
structure GroupAt (X : Setup) (s j : ℕ) (sockets : List ℤ) (remoteHosts : List StdString)
    (w : World) : Prop where
  le : j ≤ Connector.numGroups X.M
  arrived : w.arrived s = Connector.numGroups X.M + j
  remoteHosts : remoteHosts = X.others
  answered : Answered s w
  state : (j ≤ groupOf s ∧ Dialled s 1 sockets w) ∨ (groupOf s < j ∧ Dialled s X.N sockets w)

/-- All connectors have entered `j` barriers. -/
def Passed (X : Setup) (j : ℕ) (w : World) : Prop :=
  ∀ s, s < X.M → j ≤ w.arrived s

/-- What connector `s` knows between two rounds of its code. -/
def connectorPost (X : Setup) (s : ℕ) : Connector.Label → World → Prop
  | .start, w => w.arrived s = 0 ∧ Dialled s 0 [] w
  | .rootGroup is sock server port remoteHosts, w =>
      ∃ j, is = Connector.groupsFrom X.M j ∧ Passed X j w ∧
        RootAt X s j sock server port remoteHosts w
  | .asking is sock server port, w =>
      is = Connector.groupsFrom X.M (groupOf s + 1) ∧ w.arrived s = groupOf s ∧
        server = X.hostname 0 ∧ port = X.listenPort 0 ∧ Receiving s 0 sock w
  | .rootBarrier is sock server port remoteHosts, w =>
      ∃ j, is = Connector.groupsFrom X.M j ∧ RootAt X s j sock server port remoteHosts w
  | .group is sockets remoteHosts, w =>
      ∃ j, is = Connector.groupsFrom X.M j ∧ GroupAt X s j sockets remoteHosts w
  | .barrier is sockets remoteHosts, w =>
      ∃ j, is = Connector.groupsFrom X.M j ∧ GroupAt X s j sockets remoteHosts w
  | .connected sockets, w => Dialled s X.N sockets w

/-! ## What an acceptor knows -/

/-- The connections that acceptor `c` has accepted, with the ranks they come from, the last one
    first. -/
structure Accepted (c : ℕ) (peers : List (ℕ × ℕ)) (w : World) : Prop where
  taken : (w.backlog c).sent.take (w.backlog c).taken = (peers.map Prod.snd).reverse
  count : (w.backlog c).taken = peers.length
  link : ∀ p ∈ peers, ∃ conn : Conn, Linked w p.1 c p.2 conn

/-- What acceptor 0 has broadcast when it has accepted `peers`. -/
def castAt (X : Setup) (peers : List (ℕ × ℕ)) : List Bytes :=
  if 0 ∈ peers.map Prod.fst then [intBytes (Int32.ofNat X.M)] else []

/-- How many connections acceptor 0 then expects. -/
def expectedAt (X : Setup) (peers : List (ℕ × ℕ)) : Int32 :=
  if 0 ∈ peers.map Prod.fst then Int32.ofNat X.M else -1

/-- The entries of `remotes` for `peers`. -/
def socketsOf (peers : List (ℕ × ℕ)) : List (ℕ × ℤ) :=
  peers.map (fun p => (p.1, (p.2 : ℤ)))

/-- The locals of acceptor `c` when it has accepted `peers`. -/
structure Locals (X : Setup) (c : ℕ) (hosts : List Bytes) (st : Acceptor.Accepting)
    (peers : List (ℕ × ℕ)) : Prop where
  nconnected : st.nconnected = peers.length
  remotes : st.remotes = Acceptor.remotesOf (socketsOf peers)
  hosts : c = 0 → hosts = X.messages
  nexpected : st.nexpected = if c = 0 then expectedAt X peers else Int32.ofNat X.M

/-- Acceptor `c` is in its loop. -/
structure AcceptingAt (X : Setup) (c : ℕ) (hosts : List Bytes) (st : Acceptor.Accepting)
    (peers : List (ℕ × ℕ)) (w : World) : Prop where
  locals : Locals X c hosts st peers
  accepted : Accepted c peers w
  cast : c = 0 → w.cast = castAt X peers

/-- Acceptor `c` has filled its vector. -/
structure Filled (X : Setup) (c : ℕ) (sockets : List ℤ) (w : World) : Prop where
  length : sockets.length = X.M
  taken : (w.backlog c).taken = X.M
  link : ∀ s, s < X.M → ∃ (k : ℕ) (conn : Conn), sockets[s]? = some (k : ℤ) ∧ Linked w s c k conn
  cast : c = 0 → w.cast = [intBytes (Int32.ofNat X.M)]

/-- What acceptor `c` knows between two rounds of its code. -/
def acceptorPost (X : Setup) (c : ℕ) : Acceptor.Label → World → Prop
  | .start, w => Accepted c [] w ∧ (c = 0 → w.cast = [] ∧ ∀ i, (w.mail i).taken = 0) ∧
      (c ≠ 0 → (w.mail c).sent = [] ∧ w.heard c = 0)
  | .waiting, w => Accepted c [] w ∧ c ≠ 0 ∧ w.heard c = 0 ∧ (w.mail c).sent = X.letter c
  | .accepting hosts st, w => ∃ peers, AcceptingAt X c hosts st peers w
  | .accepted sockets, w => Filled X c sockets w

/-- What a rank knows between two rounds of its code. -/
def between (X : Setup) : (p : Party X) → (system X).Label p → World → Prop
  | .connector s => connectorPost X s
  | .acceptor c => acceptorPost X c

/-- The proof outline. -/
@[reducible] def outline (X : Setup) : (system X).Proof where
  inv := Inv X
  rely := Rely X
  ready := ready X
  post := between X
  rely_refl
    | .connector s => ConnectorRely.refl s
    | .acceptor c => AcceptorRely.refl c
  rely_trans
    | .connector _ => fun _ _ _ => ConnectorRely.trans
    | .acceptor _ => fun _ _ _ => AcceptorRely.trans

variable {X : Setup}

theorem connector_op {s : Fin X.M} {o : ConnectOp} {pre : World → Prop}
    {Q : o.Resp → World → Prop} (hstable : (outline X).Stable (.connector s) pre)
    (hready : ∀ w, Inv X w → pre w → readyConnector X s o w)
    (hstep : ∀ w r w', Inv X w → pre w → performConnector X s o w r w' → Q r w') :
    (outline X).Triple (.connector s) pre (Prog.op o) Q := by
  refine Proof.Triple.op hstable hready ?_
  intro w r w' hinv hpre hperform
  have hdue := hready w hinv hpre
  obtain ⟨hconnectors, hacceptors⟩ := performConnector_rely hdue hperform
  refine ⟨⟨performConnector_inv hinv s.isLt hdue hperform, fun p hp => ?_⟩,
    hstep w r w' hinv hpre hperform⟩
  cases p with
  | connector s' => exact hconnectors s' (fun h => hp (congrArg Party.connector (Fin.ext h)))
  | acceptor c => exact hacceptors c

theorem acceptor_op {c : Fin X.N} {o : AcceptOp} {pre : World → Prop}
    {Q : o.Resp → World → Prop} (hstable : (outline X).Stable (.acceptor c) pre)
    (hready : ∀ w, Inv X w → pre w → readyAcceptor X c o w)
    (hstep : ∀ w r w', Inv X w → pre w → performAcceptor c o w r w' → Q r w') :
    (outline X).Triple (.acceptor c) pre (Prog.op o) Q := by
  refine Proof.Triple.op hstable hready ?_
  intro w r w' hinv hpre hperform
  have hdue := hready w hinv hpre
  obtain ⟨hconnectors, hacceptors⟩ := performAcceptor_rely hdue hperform
  refine ⟨⟨performAcceptor_inv hinv hdue hperform, fun p hp => ?_⟩,
    hstep w r w' hinv hpre hperform⟩
  cases p with
  | connector s => exact hconnectors s
  | acceptor c' => exact hacceptors c' (fun h => hp (congrArg Party.acceptor (Fin.ext h)))

/-! ## What the other ranks leave alone -/

section Stable

variable {w w' : World} {s c k n : ℕ} {conn conn' : Conn} {sock : ℤ} {sockets : List ℤ}

theorem Linked.connector (h : Linked w s c k conn) (hrely : ConnectorRely s w w') :
    ∃ conn' : Conn, Linked w' s c k conn' ∧ conn.FromAcceptor conn' := by
  obtain ⟨conn', hconn', hfrom⟩ := hrely.own k conn h.get h.source
  exact ⟨conn', ⟨hconn', hfrom.ends.source.trans h.source, hfrom.ends.target.trans h.target⟩, hfrom⟩

/-- Nobody else makes connections of connector `s`. -/
theorem Linked.connector_back (h : Linked w' s c k conn') (hrely : ConnectorRely s w w') :
    ∃ conn : Conn, Linked w s c k conn := by
  obtain ⟨conn, hconn, hs⟩ := hrely.old k conn' h.get h.source
  obtain ⟨conn'', hconn'', hfrom⟩ := hrely.own k conn hconn hs
  have hsame : conn'' = conn' := Option.some.inj (hconn''.symm.trans h.get)
  rw [hsame] at hfrom
  exact ⟨conn, hconn, hs, hfrom.ends.target.symm.trans h.target⟩

theorem Linked.acceptor (h : Linked w s c k conn) (hrely : AcceptorRely c w w') :
    ∃ conn' : Conn, Linked w' s c k conn' ∧ conn.FromConnector conn' := by
  obtain ⟨conn', hconn', hfrom⟩ := hrely.own k conn h.get h.target
  exact ⟨conn', ⟨hconn', hfrom.ends.source.trans h.source, hfrom.ends.target.trans h.target⟩, hfrom⟩

theorem Dialled.mono (h : Dialled s n sockets w) (hrely : ConnectorRely s w w') :
    Dialled s n sockets w' := by
  refine ⟨h.length, fun c hc => ?_, fun c k conn' hlinked => ?_⟩
  · obtain ⟨k, conn, hsock, hlinked⟩ := h.link c hc
    obtain ⟨conn', hlinked', -⟩ := hlinked.connector hrely
    exact ⟨k, conn', hsock, hlinked'⟩
  · obtain ⟨conn, hold⟩ := hlinked.connector_back hrely
    exact h.only c k conn hold

theorem Unreached.mono (h : Unreached s sock w) (hrely : ConnectorRely s w w') :
    Unreached s sock w' := by
  obtain ⟨k, conn, hsock, hconn, hs, hnone⟩ := h
  obtain ⟨conn', hconn', hfrom⟩ := hrely.own k conn hconn hs
  exact ⟨k, conn', hsock, hconn', hfrom.ends.source.trans hs, hfrom.ends.target.trans hnone⟩

theorem Answered.mono (h : Answered s w) (hrely : ConnectorRely s w w') : Answered s w' := by
  obtain ⟨k, conn, hlinked, hsent⟩ := h
  obtain ⟨conn', hlinked', hfrom⟩ := hlinked.connector hrely
  exact ⟨k, conn', hlinked', fun hnil => hsent (List.prefix_nil.1 (hnil ▸ hfrom.downSent))⟩

theorem Receiving.mono {t : ℕ} (h : Receiving s t sock w) (hrely : ConnectorRely s w w') :
    Receiving s t sock w' := by
  obtain ⟨hdialled, k, conn, hsock, hlinked, htaken, hle⟩ := h
  obtain ⟨conn', hlinked', hfrom⟩ := hlinked.connector hrely
  exact ⟨hdialled.mono hrely, k, conn', hsock, hlinked', hfrom.downTaken.trans htaken,
    hle.trans hfrom.downSent.length_le⟩

theorem Passed.mono {j : ℕ} (h : Passed X j w) (hrely : ConnectorRely s w w') : Passed X j w' :=
  fun s' hs' => (h s' hs').trans (hrely.passed s')

theorem RootAt.mono {j : ℕ} {server : Bytes} {port : ℤ} {remoteHosts : List StdString}
    (h : RootAt X s j sock server port remoteHosts w) (hrely : ConnectorRely s w w') :
    RootAt X s j sock server port remoteHosts w' := by
  refine ⟨h.le, hrely.arrived.trans h.arrived, h.server, h.port, ?_⟩
  rcases h.state with ⟨hj, hsock, hdialled⟩ | ⟨hj, hhosts, hdialled, hanswered⟩
  · exact .inl ⟨hj, hsock.mono hrely, hdialled.mono hrely⟩
  · exact .inr ⟨hj, hhosts, hdialled.mono hrely, hanswered.mono hrely⟩

theorem GroupAt.mono {j : ℕ} {remoteHosts : List StdString}
    (h : GroupAt X s j sockets remoteHosts w) (hrely : ConnectorRely s w w') :
    GroupAt X s j sockets remoteHosts w' := by
  refine ⟨h.le, hrely.arrived.trans h.arrived, h.remoteHosts, h.answered.mono hrely, ?_⟩
  rcases h.state with ⟨hj, hdialled⟩ | ⟨hj, hdialled⟩
  · exact .inl ⟨hj, hdialled.mono hrely⟩
  · exact .inr ⟨hj, hdialled.mono hrely⟩

theorem Accepted.taken_le {peers : List (ℕ × ℕ)} (h : Accepted c peers w) :
    (w.backlog c).taken ≤ (w.backlog c).sent.length := by
  have hlen := congrArg List.length h.taken
  rw [List.length_take, List.length_reverse, List.length_map, ← h.count] at hlen
  omega

theorem Accepted.mono {peers : List (ℕ × ℕ)} (h : Accepted c peers w)
    (hrely : AcceptorRely c w w') : Accepted c peers w' := by
  refine ⟨?_, hrely.taken.trans h.count, fun p hp => ?_⟩
  · rw [hrely.taken, hrely.sent.take_eq h.taken_le]
    exact h.taken
  · obtain ⟨conn, hlinked⟩ := h.link p hp
    obtain ⟨conn', hlinked', -⟩ := hlinked.acceptor hrely
    exact ⟨conn', hlinked'⟩

theorem AcceptingAt.mono {hosts : List Bytes} {st : Acceptor.Accepting} {peers : List (ℕ × ℕ)}
    (h : AcceptingAt X c hosts st peers w) (hrely : AcceptorRely c w w') :
    AcceptingAt X c hosts st peers w' :=
  ⟨h.locals, h.accepted.mono hrely, fun hc => (hrely.cast hc).trans (h.cast hc)⟩

theorem Filled.mono (h : Filled X c sockets w) (hrely : AcceptorRely c w w') :
    Filled X c sockets w' := by
  refine ⟨h.length, hrely.taken.trans h.taken, fun s hs => ?_, fun hc => ?_⟩
  · obtain ⟨k, conn, hsock, hlinked⟩ := h.link s hs
    obtain ⟨conn', hlinked', -⟩ := hlinked.acceptor hrely
    exact ⟨k, conn', hsock, hlinked'⟩
  · exact (hrely.cast hc).trans (h.cast hc)

/-- What a connector knows between two rounds stays true. -/
theorem connectorPost_mono {l : Connector.Label} (h : connectorPost X s l w)
    (hrely : ConnectorRely s w w') : connectorPost X s l w' := by
  cases l with
  | start => exact ⟨hrely.arrived.trans h.1, h.2.mono hrely⟩
  | rootGroup is sock server port remoteHosts =>
      obtain ⟨j, his, hpassed, hat⟩ := h
      exact ⟨j, his, hpassed.mono hrely, hat.mono hrely⟩
  | asking is sock server port =>
      obtain ⟨his, harrived, hserver, hport, hreceiving⟩ := h
      exact ⟨his, hrely.arrived.trans harrived, hserver, hport, hreceiving.mono hrely⟩
  | rootBarrier is sock server port remoteHosts =>
      obtain ⟨j, his, hat⟩ := h
      exact ⟨j, his, hat.mono hrely⟩
  | group is sockets remoteHosts =>
      obtain ⟨j, his, hat⟩ := h
      exact ⟨j, his, hat.mono hrely⟩
  | barrier is sockets remoteHosts =>
      obtain ⟨j, his, hat⟩ := h
      exact ⟨j, his, hat.mono hrely⟩
  | connected sockets => exact Dialled.mono h hrely

theorem acceptorPost_mono {l : Acceptor.Label} (h : acceptorPost X c l w)
    (hrely : AcceptorRely c w w') : acceptorPost X c l w' := by
  cases l with
  | start =>
      obtain ⟨haccepted, hroot, hother⟩ := h
      refine ⟨haccepted.mono hrely, fun hc => ?_, fun hc => ?_⟩
      · exact ⟨(hrely.cast hc).trans (hroot hc).1, fun i =>
          (hrely.mail hc i).trans ((hroot hc).2 i)⟩
      · exact ⟨(hrely.letter hc).trans (hother hc).1, (hrely.heard hc).trans (hother hc).2⟩
  | waiting =>
      obtain ⟨haccepted, hc, hheard, hsent⟩ := h
      exact ⟨haccepted.mono hrely, hc, (hrely.heard hc).trans hheard, (hrely.letter hc).trans hsent⟩
  | accepting hosts st =>
      obtain ⟨peers, hat⟩ := h
      exact ⟨peers, hat.mono hrely⟩
  | accepted sockets => exact Filled.mono h hrely

end Stable

end Wiring

end LibIS
