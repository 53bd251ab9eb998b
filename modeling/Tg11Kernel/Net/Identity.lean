import Tg11Kernel.Net.Connection

/-! The identities of the connections. A connection is known by its remote address, its remote
port and its local port, and a segment is delivered by these. Only `net_tcp_connect` gives an
identity; all that polls and the other calls do leaves it, and brings no closed connection
back. The local port comes from a counter that goes round, so that identities are distinct as
long as the counter does not reach a port that is in use for the same remote end. -/

namespace Tg11Kernel.Net

open Lib Exec Relation

/-- The remote address, the remote port and the local port. -/
def TcpConn.ends (c : TcpConn) : Ip × UInt16 × UInt16 := (c.remoteIp, c.remotePort, c.localPort)

/-- The initial value of `tcp_next_port`. -/
def firstPort : UInt16 := 49152

/-! ### Calm changes -/

/-- A change of a connection that keeps its ends and does not open it. -/
structure CalmConn (c d : TcpConn) : Prop where
  ends : d.ends = c.ends
  closed : c.state = .closed → d.state = .closed
  live : (c.active = true → c.state ≠ .closed) → d.active = true → d.state ≠ .closed

theorem CalmConn.refl (c : TcpConn) : CalmConn c c := ⟨rfl, id, id⟩

theorem CalmConn.trans {c d e : TcpConn} (h : CalmConn c d) (h' : CalmConn d e) : CalmConn c e :=
  ⟨h'.ends.trans h.ends, fun hc => h'.closed (h.closed hc), fun hc => h'.live (h.live hc)⟩

theorem CalmConn.of_open {c d : TcpConn} (hends : d.ends = c.ends) (hopen : c.state ≠ .closed)
    (hlive : d.active = true → d.state ≠ .closed) : CalmConn c d :=
  ⟨hends, fun hc => absurd hc hopen, fun _ => hlive⟩

theorem CalmConn.of_same {c d : TcpConn} (hends : d.ends = c.ends) (hstate : d.state = c.state) (hactive : d.active = c.active) :
    CalmConn c d :=
  ⟨hends, fun hc => hstate.trans hc, fun hc hd => by rw [hstate]; exact hc (hactive ▸ hd)⟩

theorem CalmConn.shut (c : TcpConn) : CalmConn c c.shut := ⟨rfl, fun _ => rfl, fun _ hactive => by simp [TcpConn.shut] at hactive⟩

/-- A change of the stack that gives no connection an identity. -/
structure Calm (s t : Stack) : Prop where
  port : t.tcpNextPort = s.tcpNextPort
  world : t.world <:+ s.world
  conn : ∀ i, CalmConn (s.conns i) (t.conns i)

variable {s t u : Stack} {i j : Conn} {c : TcpConn} {α : Type}

namespace Calm

theorem of_eq (hport : t.tcpNextPort = s.tcpNextPort) (hworld : t.world = s.world) (hconns : t.conns = s.conns) : Calm s t :=
  ⟨hport, by rw [hworld], fun i => by rw [hconns]; exact .refl _⟩

theorem refl (s : Stack) : Calm s s := of_eq rfl rfl rfl

theorem trans (h : Calm s t) (h' : Calm t u) : Calm s u :=
  ⟨h'.port.trans h.port, h'.world.trans h.world, fun i => (h.conn i).trans (h'.conn i)⟩

/-- Another change of the one connection, seen from the start. -/
theorem setConn (h : Calm s t) (hc : CalmConn (s.conns i) c) : Calm s (t.setConn i c) where
  port := h.port
  world := h.world
  conn j := by
    by_cases hj : j = i
    · subst hj
      rwa [setConn_conns_self]
    · rw [setConn_conns_ne hj]
      exact h.conn j

theorem log (h : Calm s t) (e : TcpEvent) : Calm s (t.log i e) := h.trans (of_eq rfl rfl rfl)

theorem of_moves (h : ReflTransGen Calm s t) : Calm s t := by
  induction h with
  | refl => exact .refl s
  | tail _ hmove ih => exact ih.trans hmove

theorem idle : Idle Calm := by
  intro s t h
  have hwatched := h.watched
  simp only [Stack.watched, Prod.mk.injEq] at hwatched
  exact ⟨h.port, h.world, fun i => by rw [hwatched.2.2.2.2.1]; exact .refl _⟩

end Calm

/-- A program that changes the stack calmly. -/
abbrev CalmRun (m : Exec Stack α) : Prop := Walks Calm m

theorem CalmRun.calm {m : Exec Stack α} (h : CalmRun m) (s : Stack) : Calm s (m s).2 := .of_moves (h s)

theorem CalmRun.of_calm {m : Exec Stack α} (h : ∀ s, Calm s (m s).2) : CalmRun m := fun s => .single (h s)

/-! ### Polls -/

section Polls

variable {poll : Exec Stack Unit} {n : ℕ} (hpoll : CalmRun poll)

include hpoll

theorem calm_tcpSendSegment (i : Conn) (flags : UInt8) (data : Bytes) : CalmRun (tcpSendSegment poll n i flags data) := by
  have hnot : CalmRun (notSent i flags) := .of_calm fun s => (Calm.refl s).log _
  unfold tcpSendSegment
  split_ifs
  · exact hnot
  · apply Walks.read_bind
    intro c
    apply (walks_resolveMac Calm.idle hpoll c.remoteIp).bind
    intro mac
    cases mac with
    | none => exact hnot
    | some dstMac =>
      apply Walks.read_bind
      intro c
      apply Walks.read_bind
      intro cfg
      apply (walks_sendEth Calm.idle _ _ _).bind
      intro ok
      exact CalmRun.of_calm fun s => (Calm.refl s).log _

theorem calm_ack (i : Conn) : CalmRun (ignore (tcpSendSegment poll n i TCP_ACK [])) := (calm_tcpSendSegment hpoll i TCP_ACK []).ignore

theorem calm_onLastFin (i : Conn) : CalmRun (onLastFin poll n i) := by
  apply (calm_ack hpoll i).bind
  intro _
  exact CalmRun.of_calm fun s => (Calm.refl s).setConn (.shut _)

theorem calm_takeFin (seg : Segment) (h : Calm s t) (hopen : (s.conns i).state ≠ .closed) : Calm s (takeFin poll n i seg t).2 := by
  unfold takeFin
  split_ifs
  · have hfinish : Calm s (t.setConn i ((t.conns i).finish seg)) := by
      apply h.setConn
      exact .of_open (h.conn i).ends hopen fun _ => TcpState.noConfusion
    exact hfinish.trans ((calm_ack hpoll i).calm _)
  · exact h

theorem calm_takeData (i : Conn) (seg : Segment) : CalmRun (takeData poll n i seg) := by
  apply CalmRun.of_calm
  intro s
  have hrun : takeData poll n i seg s = (if 0 < seg.data.length ∧ seg.seqNum = (s.conns i).ack then do
      putConn i ((s.conns i).accept seg)
      ignore (tcpSendSegment poll n i TCP_ACK [])
    else pure () : Exec Stack Unit) s := rfl
  rw [hrun]
  split_ifs
  · have hput : Calm s (s.setConn i ((s.conns i).accept seg)) := (Calm.refl s).setConn (.of_same rfl rfl rfl)
    exact hput.trans ((calm_ack hpoll i).calm _)
  · exact .refl s

/-- The connection may go to another state while the segment is handled, but is not closed when that begins. -/
theorem calm_onSegment (i : Conn) (seg : Segment) (s : Stack) : Calm s (onSegment poll n i seg (s.conns i).state s).2 := by
  have hopened : ∀ {state}, (s.conns i).state = state → state ≠ .closed → (s.conns i).state ≠ .closed := by
    rintro state rfl hne
    exact hne
  cases hstate : (s.conns i).state with
  | synSent =>
    unfold onSegment onSynSent
    split_ifs
    · have hput : Calm s (s.setConn i { s.conns i with ack := seg.seqNum + 1, seq := seg.ackNum, state := .established }) :=
        (Calm.refl s).setConn (.of_open rfl (hopened hstate nofun) fun _ => TcpState.noConfusion)
      exact hput.trans ((calm_ack hpoll i).calm _)
    · exact .refl s
  | established =>
    have hopen := hopened hstate nofun
    have hdata := (calm_takeData (n := n) hpoll i seg).calm s
    exact bind_state (I := fun t => Calm s t) hdata fun _ t ht => calm_takeFin hpoll seg ht hopen
  | finWait1 =>
    have hopen := hopened hstate nofun
    unfold onSegment onFinWait1
    split_ifs with hack hfin
    · have hrun : (do
          let c ← getConn i
          if has seg.flags TCP_FIN = true then do
            putConn i { c with seq := seg.ackNum, ack := seg.seqNum + 1, state := .timeWait }
            onLastFin poll n i
          else putConn i { c with seq := seg.ackNum, state := .finWait2 } : Exec Stack Unit) s =
          onLastFin poll n i (s.setConn i { s.conns i with seq := seg.ackNum, ack := seg.seqNum + 1, state := .timeWait }) := by
        rw [bind_ok (show getConn i s = (.ok (s.conns i), s) from rfl), if_pos hfin]
        rfl
      have hput : Calm s (s.setConn i { s.conns i with seq := seg.ackNum, ack := seg.seqNum + 1, state := .timeWait }) :=
        (Calm.refl s).setConn (.of_open rfl hopen fun _ => TcpState.noConfusion)
      exact hput.trans ((calm_onLastFin hpoll i).calm _)
    · exact (Calm.refl s).setConn (.of_open rfl hopen fun _ => TcpState.noConfusion)
    · exact .refl s
  | finWait2 =>
    unfold onSegment onFinWait2
    split_ifs
    · have hput : Calm s (s.setConn i { s.conns i with ack := seg.seqNum + 1 }) := (Calm.refl s).setConn (.of_same rfl rfl rfl)
      exact hput.trans ((calm_onLastFin hpoll i).calm _)
    · exact .refl s
  | lastAck =>
    unfold onSegment onLastAck
    split_ifs
    · exact (Calm.refl s).setConn (.shut _)
    · exact .refl s
  | closed => exact .refl s
  | closeWait => exact .refl s
  | timeWait => exact .refl s

theorem calm_deliver (i : Conn) (seg : Segment) : CalmRun (deliver poll n i seg) := by
  apply CalmRun.of_calm
  intro s
  have hlog : Calm s (s.log i (.arrived (s.conns i) seg)) := (Calm.refl s).log _
  have hrun : deliver poll n i seg s = (if has seg.flags TCP_RST = true then shutConn i
      else onSegment poll n i seg (s.conns i).state) (s.log i (.arrived (s.conns i) seg)) := rfl
  rw [hrun]
  split_ifs
  · exact hlog.setConn (.shut _)
  · exact hlog.trans (calm_onSegment hpoll i seg _)

theorem calm_handleIpv4 (frame : Bytes) (off len : ℕ) : CalmRun (handleIpv4 poll n frame off len) := by
  apply Walks.read_bind
  intro ip
  apply Walks.ofOption_bind
  intro found _
  cases found with
  | none => exact Walks.pure
  | some pkt =>
    show CalmRun (dispatchIpv4 poll n frame pkt)
    unfold dispatchIpv4
    split_ifs
    · exact walks_handleIcmp Calm.idle
    · apply Walks.ofOption_bind
      intro found _
      cases found with
      | none => exact Walks.pure
      | some seg =>
        apply Walks.read_bind
        intro found
        cases found with
        | none => exact Walks.pure
        | some i => exact calm_deliver hpoll i seg
    · apply Walks.ofOption_bind
      intro found _
      cases found with
      | none => exact Walks.pure
      | some d => exact Walks.modify fun s => .of_eq rfl rfl rfl
    · exact Walks.pure

theorem calm_handleFrame (frame : Bytes) : CalmRun (handleFrame poll n frame) := by
  unfold handleFrame
  split_ifs
  · exact Walks.pure
  · apply Walks.ofOption_bind
    intro etype _
    unfold dispatchFrame
    split_ifs
    · exact walks_handleArp Calm.idle
    · exact calm_handleIpv4 hpoll frame _ _
    · exact Walks.pure

theorem calm_pollLoop (count : ℕ) : CalmRun (pollLoop (handleFrame poll n) count) := by
  induction count with
  | zero => exact Walks.pure
  | succ count ih =>
    have hrx : CalmRun e1000PollRx := by
      apply CalmRun.of_calm
      intro s
      unfold e1000PollRx
      split_ifs
      · split
        · exact .refl s
        · exact .of_eq rfl rfl rfl
      · exact .refl s
    apply hrx.bind
    intro found
    cases found with
    | none => exact Walks.pure
    | some frame => exact (calm_handleFrame hpoll frame).bind fun _ => ih

end Polls

variable (n : ℕ)

theorem calm_netPoll : CalmRun (netPoll n) := by
  induction n with
  | zero => exact walks_arrive Calm.idle (calm_pollLoop Walks.hang 64)
  | succ n ih => exact walks_arrive Calm.idle (calm_pollLoop ih 64)

/-! ### Calls -/

theorem calm_advanceSeq (i : Conn) (d : UInt32) : CalmRun (advanceSeq i d) :=
  .of_calm fun s => (Calm.refl s).setConn (.of_same rfl rfl rfl)

theorem calm_deactivate (i : Conn) : CalmRun (deactivate i .closed) := .of_calm fun s => ((Calm.refl s).log _).setConn (.shut _)

theorem calm_wait (deadline : UInt64) (done : Stack → Bool) (k : ℕ) : CalmRun (waitUntil (netPoll n) deadline done k) :=
  walks_waitUntil Calm.idle (calm_netPoll n) deadline done k

theorem calm_udpRecvWait (port : UInt16) (maxLen : ℕ) (timeout : UInt64) : CalmRun (udpRecvWait n port maxLen timeout) := by
  apply Walks.read_bind
  intro now
  refine Walks.modify_bind (fun s => .of_eq rfl rfl rfl) ?_
  apply (calm_wait n _ _ n).bind
  intro received
  apply Walks.read_bind
  intro data
  exact Walks.modify_bind (fun s => .of_eq rfl rfl rfl) Walks.pure

theorem calm_sendChunks (i : Conn) (k : ℕ) (data : Bytes) : CalmRun (sendChunks n i k data) := by
  induction k generalizing data with
  | zero => exact Walks.pure
  | succ k ih =>
    unfold sendChunks
    split_ifs
    · exact Walks.pure
    · apply (calm_tcpSendSegment (calm_netPoll n) i _ _).bind
      intro ok
      split_ifs
      · apply (calm_advanceSeq i _).bind
        intro _
        apply Walks.read_bind
        intro now
        apply (calm_wait n _ _ n).ignore.bind
        intro _
        exact ih _
      · exact Walks.pure

theorem calm_netTcpRecv (i : Conn) (bufSize : ℕ) (timeout : UInt64) : CalmRun (netTcpRecv n i bufSize timeout) := by
  have htake : CalmRun (takeReceived i bufSize) := by
    apply CalmRun.of_calm
    intro s
    have hrun : takeReceived i bufSize s = (if (s.conns i).rxBuf = [] then pure (some [])
      else do
        putConn i { s.conns i with rxBuf := (s.conns i).rxBuf.drop bufSize }
        modify (Stack.log i (.returned ((s.conns i).rxBuf.take bufSize)))
        pure (some ((s.conns i).rxBuf.take bufSize)) : Exec Stack (Option Bytes)) s := rfl
    rw [hrun]
    split_ifs
    · exact .refl s
    · have hput : Calm s (s.setConn i { s.conns i with rxBuf := (s.conns i).rxBuf.drop bufSize }) :=
        (Calm.refl s).setConn (.of_same rfl rfl rfl)
      exact hput.log _
  apply Walks.read_bind
  intro c
  split_ifs
  · apply Walks.read_bind
    intro now
    apply (calm_wait n _ _ n).bind
    intro ready
    split_ifs
    · exact htake
    · exact Walks.pure
  · exact Walks.pure

theorem calm_sendFin (state : TcpState) (hopen : (s.conns i).state ≠ .closed) (hstate : state ≠ .closed) :
    Calm s (sendFin n i state s).2 := by
  have hput : Calm s (s.setConn i { s.conns i with state := state }) := (Calm.refl s).setConn (.of_open rfl hopen fun _ => hstate)
  have hrest : CalmRun (do
      ignore (tcpSendSegment (netPoll n) n i (TCP_FIN ||| TCP_ACK) [])
      advanceSeq i 1
      awaitClose n i : Exec Stack Unit) := by
    apply (calm_tcpSendSegment (calm_netPoll n) i _ _).ignore.bind
    intro _
    apply (calm_advanceSeq i 1).bind
    intro _
    apply Walks.read_bind
    intro c
    apply Walks.read_bind
    intro now
    split_ifs
    · exact (calm_wait n _ _ n).ignore
    · exact Walks.pure
  exact hput.trans (hrest.calm _)

theorem calm_netTcpClose (i : Conn) : CalmRun (netTcpClose n i) := by
  apply CalmRun.of_calm
  intro s
  have hrun : netTcpClose n i s = (if (s.conns i).active = true then do
      closeActive n i (s.conns i).state
      deactivate i .closed
    else pure () : Exec Stack Unit) s := rfl
  rw [hrun]
  split_ifs
  · apply bind_state (I := fun t => Calm s t)
    · cases hstate : (s.conns i).state with
      | established => exact calm_sendFin n .finWait1 (by rw [hstate]; nofun) nofun
      | closeWait => exact calm_sendFin n .lastAck (by rw [hstate]; nofun) nofun
      | _ => exact .refl s
    · intro _ t ht
      exact ht.trans ((calm_deactivate i).calm t)
  · exact .refl s

/-- A connect is calm from the moment that the connection has its identity. -/
theorem calm_connectOn (dstIp : Ip) (dstPort : UInt16) (s : Stack) :
    Calm (openConn i dstIp dstPort s) (connectOn n i dstIp dstPort s).2 := by
  have hrest : CalmRun (do
      let ok ← tcpSendSegment (netPoll n) n i TCP_SYN []
      if ok = true then handshake n i
      else do
        let c ← getConn i
        putConn i { c with active := false }
        pure none : Exec Stack (Option Conn)) := by
    have hclosed : CalmRun (do deactivate i .closed; pure (none : Option Conn)) := (calm_deactivate i).bind fun _ => Walks.pure
    apply (calm_tcpSendSegment (calm_netPoll n) i _ _).bind
    intro ok
    split_ifs
    · apply (calm_advanceSeq i 1).bind
      intro _
      apply Walks.read_bind
      intro now
      apply (calm_wait n _ _ n).bind
      intro answered
      split_ifs
      · apply Walks.read_bind
        intro c
        split_ifs
        · exact Walks.pure
        · exact hclosed
      · exact hclosed
    · apply CalmRun.of_calm
      intro t
      apply (Calm.refl t).setConn
      exact ⟨rfl, id, fun _ hactive => by simp at hactive⟩
  exact hrest.calm (openConn i dstIp dstPort s)

/-- Every call but a connect is calm. -/
theorem calm_call (call : Call) : CalmRun (call.run n) ∨ ∃ dstIp dstPort, call = .tcpConnect dstIp dstPort := by
  cases call with
  | poll => exact .inl (calm_netPoll n)
  | ping dstIp seq => exact .inl (walks_netPing Calm.idle calm_netPoll n dstIp seq).ignore
  | pingCheck seq => exact .inl (walks_netPingCheck Calm.idle seq).ignore
  | udpSend dstIp srcPort dstPort data => exact .inl (walks_netUdpSend Calm.idle calm_netPoll n dstIp srcPort dstPort data).ignore
  | udpSendBroadcast srcPort dstPort data => exact .inl (walks_netUdpSendBroadcast Calm.idle srcPort dstPort data).ignore
  | udpRecv port maxLen timeout => exact .inl (calm_udpRecvWait n port maxLen timeout).ignore
  | tcpConnect dstIp dstPort => exact .inr ⟨dstIp, dstPort, rfl⟩
  | tcpSend i data =>
    have hsend : CalmRun (netTcpSend n i data) := by
      apply Walks.read_bind
      intro c
      split_ifs
      · exact calm_sendChunks n i _ data
      · exact Walks.pure
    exact .inl hsend.ignore
  | tcpRecv i bufSize timeout => exact .inl (calm_netTcpRecv n i bufSize timeout).ignore
  | tcpClose i => exact .inl (calm_netTcpClose n i)

/-! ### Identities -/

/-- Connections that are not closed have different ends and local ports of the counter's range, and a segment goes to
the one connection that has its ends. -/
structure Identities (s : Stack) : Prop where
  distinct : ∀ i j, (s.conns i).state ≠ .closed → (s.conns j).state ≠ .closed → (s.conns i).ends = (s.conns j).ends → i = j
  ports : ∀ i, (s.conns i).state ≠ .closed → (s.conns i).localPort ≠ 0 ∧ firstPort ≤ (s.conns i).localPort
  delivery : ∀ srcIp seg i, s.findConn srcIp seg = some i ↔
    (s.conns i).active = true ∧ (s.conns i).ends = (srcIp, seg.srcPort, seg.dstPort)

/-- The slot that a connect takes. -/
def Stack.freeSlot (s : Stack) : Option Conn := (List.finRange NET_TCP_MAX_CONN).find? fun i => !(s.conns i).active

theorem connect_eq (dstIp : Ip) (dstPort : UInt16) (s : Stack) : (Call.tcpConnect dstIp dstPort).run n s =
    ignore (s.freeSlot.elim (pure none) (connectOn n · dstIp dstPort)) s := by
  have heq := netTcpConnect_eq n dstIp dstPort s
  show ignore (netTcpConnect n dstIp dstPort) s = _
  rcases hrun : s.freeSlot.elim (pure none) (connectOn n · dstIp dstPort) s with ⟨_ | _ | _, t⟩
  · rw [ignore, ignore, bind_ok hrun, bind_ok (heq.trans hrun)]
  · rw [ignore, ignore, bind_fail hrun, bind_fail (heq.trans hrun)]
  · rw [ignore, ignore, bind_hang hrun, bind_hang (heq.trans hrun)]

/-- When a connection is opened, no other one that is not closed has its remote end and the port of the counter. -/
def Call.PortUnused (s : Stack) : Call → Prop
  | .tcpConnect dstIp dstPort => ∀ i, s.freeSlot = some i → ∀ j ≠ i, (s.conns j).state ≠ .closed →
      (s.conns j).ends ≠ (dstIp, dstPort, s.tcpNextPort)
  | _ => True

/-- The same at every call of a run. -/
def PortsUnused (n : ℕ) : List Call → Stack → Prop
  | [], _ => True
  | call :: calls, s => call.PortUnused s ∧ ((call.run n s).1 = .ok () → PortsUnused n calls (call.run n s).2)

/-- The invariant: the identities with the counter, and no active connection is closed. -/
structure Named (s : Stack) : Prop where
  distinct : ∀ i j, (s.conns i).state ≠ .closed → (s.conns j).state ≠ .closed → (s.conns i).ends = (s.conns j).ends → i = j
  ports : ∀ i, (s.conns i).state ≠ .closed → firstPort ≤ (s.conns i).localPort
  counter : firstPort ≤ s.tcpNextPort
  live : ∀ i, (s.conns i).active = true → (s.conns i).state ≠ .closed

theorem Named.calm (h : Named s) (hcalm : Calm s t) : Named t := by
  have hopen : ∀ i, (t.conns i).state ≠ .closed → (s.conns i).state ≠ .closed := fun i hi hclosed => hi ((hcalm.conn i).closed hclosed)
  refine ⟨fun i j hi hj hends => ?_, fun i hi => ?_, ?_, fun i => (hcalm.conn i).live (h.live i)⟩
  · rw [(hcalm.conn i).ends, (hcalm.conn j).ends] at hends
    exact h.distinct i j (hopen i hi) (hopen j hj) hends
  · have hends := (hcalm.conn i).ends
    simp only [TcpConn.ends, Prod.mk.injEq] at hends
    rw [hends.2.2]
    exact h.ports i (hopen i hi)
  · rw [hcalm.port]
    exact h.counter

theorem nextPort_le {p : UInt16} (h : firstPort ≤ p) : firstPort ≤ if p + 1 = 0 then 49152 else p + 1 := by
  split_ifs with hzero
  · decide
  · rw [UInt16.le_iff_toNat_le] at h ⊢
    have hne : (p + 1).toNat ≠ 0 := fun hnat => hzero (UInt16.toNat_inj.1 hnat)
    have hlt := p.toNat_lt
    have hfirst : firstPort.toNat = 49152 := rfl
    have hsum : (p + 1).toNat = (p.toNat + 1) % 65536 := UInt16.toNat_add p 1
    omega

theorem Named.openConn {dstIp : Ip} {dstPort : UInt16} (h : Named s)
    (hunused : ∀ j ≠ i, (s.conns j).state ≠ .closed → (s.conns j).ends ≠ (dstIp, dstPort, s.tcpNextPort)) :
    Named (openConn i dstIp dstPort s) := by
  have hself : (Net.openConn i dstIp dstPort s).conns i = freshConn dstIp s.tcpNextPort dstPort (1000 + s.ticks.toUInt32) :=
    Function.update_self ..
  have hother : ∀ j ≠ i, (Net.openConn i dstIp dstPort s).conns j = s.conns j := fun j hj => Function.update_of_ne hj ..
  have hends : ((Net.openConn i dstIp dstPort s).conns i).ends = (dstIp, dstPort, s.tcpNextPort) := by
    rw [hself]
    rfl
  refine ⟨fun j k hj hk heq => ?_, fun j hj => ?_, nextPort_le h.counter, fun j hj => ?_⟩
  · by_cases hji : j = i
    · by_cases hki : k = i
      · rw [hji, hki]
      · rw [hji, hends, hother k hki] at heq
        rw [hother k hki] at hk
        exact absurd heq.symm (hunused k hki hk)
    · by_cases hki : k = i
      · rw [hki, hends, hother j hji] at heq
        rw [hother j hji] at hj
        exact absurd heq (hunused j hji hj)
      · rw [hother j hji] at hj heq
        rw [hother k hki] at hk heq
        exact h.distinct j k hj hk heq
  · by_cases hji : j = i
    · rw [hji, hself]
      exact h.counter
    · rw [hother j hji] at hj ⊢
      exact h.ports j hj
  · by_cases hji : j = i
    · rw [hji, hself]
      exact TcpState.noConfusion
    · rw [hother j hji] at hj ⊢
      exact h.live j hj

theorem Named.call (h : Named s) {n : ℕ} {call : Call} (hunused : call.PortUnused s) : Named (call.run n s).2 := by
  rcases calm_call n call with hcalm | ⟨dstIp, dstPort, rfl⟩
  · exact h.calm (hcalm.calm s)
  · have hrun := connect_eq n dstIp dstPort s
    rw [hrun]
    cases hslot : s.freeSlot with
    | none => exact h
    | some i =>
      apply bind_state (I := Named)
      · exact (h.openConn (hunused i hslot)).calm (calm_connectOn n dstIp dstPort s)
      · exact fun _ _ ht => ht

theorem Named.run {n : ℕ} {calls : List Call} (h : Named s) (hunused : PortsUnused n calls s) : Named (runCalls n calls s).2 := by
  induction calls generalizing s with
  | nil => exact h
  | cons call calls ih =>
    obtain ⟨hcall, hrest⟩ := hunused
    apply bind_state_of (I := Named)
    · exact h.call hcall
    · intro _ hok
      exact ih (h.call hcall) (hrest hok)

theorem named_start (mac : Mac) (ticks : UInt64) (world : List Arrival) : Named (netInit mac ticks world) :=
  ⟨fun _ _ hi => absurd rfl hi, fun _ hi => absurd rfl hi, by show firstPort ≤ (49152 : UInt16); decide, fun _ hi => absurd hi Bool.false_ne_true⟩

/-- What `handle_tcp` compares. -/
theorem matches_iff {srcIp : Ip} {seg : Segment} : ((s.conns i).active && decide ((s.conns i).localPort = seg.dstPort) &&
      decide ((s.conns i).remotePort = seg.srcPort) && decide ((s.conns i).remoteIp = srcIp)) = true ↔
    (s.conns i).active = true ∧ (s.conns i).ends = (srcIp, seg.srcPort, seg.dstPort) := by
  simp only [Bool.and_eq_true, decide_eq_true_eq, TcpConn.ends, Prod.mk.injEq]
  tauto

theorem findConn_matches {srcIp : Ip} {seg : Segment} (h : s.findConn srcIp seg = some i) :
    (s.conns i).active = true ∧ (s.conns i).ends = (srcIp, seg.srcPort, seg.dstPort) := by
  have hfound := List.find?_some h
  exact matches_iff.1 hfound

theorem Named.identities (h : Named s) : Identities s := by
  refine ⟨h.distinct, fun i hi => ⟨?_, h.ports i hi⟩, fun srcIp seg i => ?_⟩
  · intro hzero
    have hport := h.ports i hi
    rw [hzero] at hport
    exact absurd hport (by decide)
  · constructor
    · intro hfind
      exact findConn_matches hfind
    · intro hmatch
      rcases hfind : s.findConn srcIp seg with _ | j
      · have hmiss := List.find?_eq_none.1 hfind i (List.mem_finRange i)
        exact absurd (matches_iff.2 hmatch) hmiss
      · obtain ⟨hj, hends⟩ := findConn_matches hfind
        rw [h.distinct i j (h.live i hmatch.1) (h.live j hj) (hmatch.2.trans hends.symm)]

/-- The arrivals to come are the last ones. -/
theorem call_world (call : Call) (s : Stack) : (call.run n s).2.world <:+ s.world := by
  rcases calm_call n call with hcalm | ⟨dstIp, dstPort, rfl⟩
  · exact (hcalm.calm s).world
  · have hrun := connect_eq n dstIp dstPort s
    rw [hrun]
    cases hslot : s.freeSlot with
    | none => exact List.suffix_rfl
    | some i => exact bind_state (I := fun t : Stack => t.world <:+ s.world) (calm_connectOn n dstIp dstPort s).world fun _ _ ht => ht

/-- A poll when no frame arrives. -/
theorem netPoll_quiet (hrx : s.rx = []) {e : UInt64} {w : List Arrival} (hworld : s.world = ⟨e, []⟩ :: w) :
    netPoll n s = (.ok (), { s with ticks := s.ticks + e, world := w }) := by
  have harrive : s.arrive = { s with ticks := s.ticks + e, world := w } := by
    unfold Stack.arrive
    rw [hworld]
    simp [hrx]
  have hnone : e1000PollRx { s with ticks := s.ticks + e, world := w } = (.ok none, { s with ticks := s.ticks + e, world := w }) := by
    unfold e1000PollRx
    simp [hrx]
  have hloop : ∀ handle : Bytes → Exec Stack Unit, pollLoop handle 64 { s with ticks := s.ticks + e, world := w } =
      (.ok (), { s with ticks := s.ticks + e, world := w }) := by
    intro handle
    rw [pollLoop, bind_ok hnone]
    rfl
  cases n with
  | zero =>
    rw [netPoll, bind_ok (show Exec.modify Stack.arrive s = (.ok (), s.arrive) from rfl), harrive]
    exact hloop _
  | succ n =>
    rw [netPoll, bind_ok (show Exec.modify Stack.arrive s = (.ok (), s.arrive) from rfl), harrive]
    exact hloop _

theorem arpRequest_apply (ip : Ip) (s : Stack) : ∃ frames, arpRequest ip s = (.ok (), { s with sent := frames }) := by
  obtain ⟨ok, frames, heq⟩ := sendEth_cases bcastMac ETH_TYPE_ARP (arpPkt 1 s.cfg.mac s.cfg.ip ⟨0, 0, 0, 0, 0, 0⟩ ip) s
  refine ⟨frames, ?_⟩
  rw [arpRequest, bind_ok (show Exec.gets (fun t : Stack => t.cfg) s = (.ok s.cfg, s) from rfl), ignore, bind_ok heq]
  rfl

theorem lt_add_of_room {a d : UInt64} (hd : 0 < d.toNat) (hroom : a.toNat + d.toNat < 2 ^ 64) : a < a + d := by
  rw [UInt64.lt_iff_toNat_lt, UInt64.toNat_add, Nat.mod_eq_of_lt hroom]
  omega

theorem not_lt_add {a d e : UInt64} (hde : d.toNat ≤ e.toNat) (hroom : a.toNat + e.toNat < 2 ^ 64) : ¬ a + e < a + d := by
  rw [UInt64.lt_iff_toNat_lt, UInt64.toNat_add, UInt64.toNat_add, Nat.mod_eq_of_lt hroom, Nat.mod_eq_of_lt (by omega)]
  omega

/-- A round of a wait in which no frame arrives. -/
theorem waitUntil_quiet (k : ℕ) {deadline e : UInt64} {w : List Arrival} {done : Stack → Bool} (hrx : s.rx = [])
    (hworld : s.world = ⟨e, []⟩ :: w) (hbefore : s.ticks < deadline) (hdone : done { s with ticks := s.ticks + e, world := w } = false) :
    waitUntil (netPoll n) deadline done (k + 1) s = waitUntil (netPoll n) deadline done k { s with ticks := s.ticks + e, world := w } := by
  have hread : Exec.gets done { s with ticks := s.ticks + e, world := w } = (.ok false, { s with ticks := s.ticks + e, world := w }) := by
    rw [← hdone]
    rfl
  rw [waitUntil, whileBefore, if_pos hbefore, if_neg (by simp [hworld]), bind_ok (netPoll_quiet n hrx hworld), bind_ok hread,
    if_neg Bool.false_ne_true]

section Unresolved

variable {target : Ip} {w : List Arrival} (hmiss : s.arpLookup target = none) (hrx : s.rx = [])

include hmiss hrx

/-- A question that nobody answers in time. -/
theorem askMac_unanswered {e : UInt64} (hworld : s.world = ⟨e, []⟩ :: w) (he : 200 ≤ e.toNat) (hroom : s.ticks.toNat + e.toNat < 2 ^ 64) :
    ∃ frames, askMac (netPoll 1) 1 target s = (.ok none, { s with sent := frames, ticks := s.ticks + e, world := w }) := by
  obtain ⟨frames, hask⟩ := arpRequest_apply target s
  refine ⟨frames, ?_⟩
  have hbefore : s.ticks < s.ticks + 200 := lt_add_of_room (by decide) (lt_of_le_of_lt (Nat.add_le_add_left he _) hroom)
  have hafter : ¬ s.ticks + e < s.ticks + 200 := not_lt_add he hroom
  have hwait := @waitUntil_quiet { s with sent := frames } 1 0 (s.ticks + 200) e w (fun t => (t.arpLookup target).isSome) hrx hworld hbefore
    (congrArg Option.isSome hmiss)
  rw [waitUntil, whileBefore, if_neg hafter] at hwait
  rw [askMac, bind_ok hask, bind_ok (show Exec.gets (fun t : Stack => t.ticks) { s with sent := frames } = (.ok s.ticks, _) from rfl),
    bind_ok hwait, if_neg Bool.false_ne_true]
  rfl

/-- A wait that goes on when the arrivals that it was given fuel for are over. -/
theorem askMac_waiting {a : Arrival} (hworld : s.world = ⟨0, []⟩ :: a :: w) (hroom : s.ticks.toNat + 200 < 2 ^ 64) :
    ∃ frames, askMac (netPoll 1) 1 target s = (.hang, { s with sent := frames, ticks := s.ticks + 0, world := a :: w }) := by
  obtain ⟨frames, hask⟩ := arpRequest_apply target s
  refine ⟨frames, ?_⟩
  have hbefore : s.ticks < s.ticks + 200 := lt_add_of_room (by decide) hroom
  have hafter : s.ticks + 0 < s.ticks + 200 := by rwa [UInt64.add_zero]
  have hwait := @waitUntil_quiet { s with sent := frames } 1 0 (s.ticks + 200) 0 (a :: w) (fun t => (t.arpLookup target).isSome) hrx hworld
    hbefore (congrArg Option.isSome hmiss)
  rw [waitUntil, whileBefore, if_pos hafter, if_neg (by simp)] at hwait
  rw [askMac, bind_ok hask, bind_ok (show Exec.gets (fun t : Stack => t.ticks) { s with sent := frames } = (.ok s.ticks, _) from rfl),
    bind_hang hwait]

end Unresolved

/-- What a connect to an unknown address leaves. -/
structure Missed (s t : Stack) (i : Conn) (dstIp : Ip) (dstPort : UInt16) (e : UInt64) (w : List Arrival) : Prop where
  conns : ∃ c : TcpConn, t.conns = Function.update s.conns i { c with active := false }
  port : t.tcpNextPort = if s.tcpNextPort + 1 = 0 then 49152 else s.tcpNextPort + 1
  cfg : t.cfg = s.cfg
  cache : t.arpCache = s.arpCache
  rx : t.rx = s.rx
  world : t.world = w
  ticks : t.ticks = s.ticks + e

section Connects

variable {dstIp : Ip} {dstPort : UInt16} {w : List Arrival} (hslot : s.freeSlot = some i)
  (hmiss : s.arpLookup (resolveTarget s.cfg dstIp) = none) (hrx : s.rx = [])

/-- The SYN waits for the address. -/
theorem sendSyn_apply (hmiss : s.arpLookup (resolveTarget s.cfg dstIp) = none) : tcpSendSegment (netPoll 1) 1 i TCP_SYN [] (openConn i dstIp dstPort s) = (do
    match ← askMac (netPoll 1) 1 (resolveTarget s.cfg dstIp) with
    | none => notSent i TCP_SYN
    | some dstMac => emitSegment i TCP_SYN [] dstMac : Exec Stack Bool) (openConn i dstIp dstPort s) := by
  have hconn : getConn i (openConn i dstIp dstPort s) =
      (.ok (freshConn dstIp s.tcpNextPort dstPort (1000 + s.ticks.toUInt32)), openConn i dstIp dstPort s) := by
    unfold getConn openConn
    simp [Exec.gets]
  have hmiss' : (openConn i dstIp dstPort s).arpLookup (resolveTarget s.cfg dstIp) = none := hmiss
  have hresolve : resolveMac (netPoll 1) 1 dstIp (openConn i dstIp dstPort s) =
      askMac (netPoll 1) 1 (resolveTarget s.cfg dstIp) (openConn i dstIp dstPort s) := by
    rw [resolveMac, bind_ok (show Exec.gets (fun t : Stack => resolveTarget t.cfg dstIp) (openConn i dstIp dstPort s) =
      (.ok (resolveTarget s.cfg dstIp), openConn i dstIp dstPort s) from rfl), bind_ok (show Exec.gets (fun t : Stack =>
      t.arpLookup (resolveTarget s.cfg dstIp)) (openConn i dstIp dstPort s) = (.ok none, openConn i dstIp dstPort s) by rw [← hmiss']; rfl)]
  rw [tcpSendSegment, if_neg (by decide), bind_ok hconn]
  have hbind : ∀ k : Option Mac → Exec Stack Bool, (resolveMac (netPoll 1) 1 dstIp >>= k) (openConn i dstIp dstPort s) =
      (askMac (netPoll 1) 1 (resolveTarget s.cfg dstIp) >>= k) (openConn i dstIp dstPort s) := fun k => by
    rw [bind_apply, bind_apply, hresolve]
  exact hbind _

include hslot hmiss hrx

theorem connect_unanswered {e : UInt64} (hworld : s.world = ⟨e, []⟩ :: w) (he : 200 ≤ e.toNat)
    (hroom : s.ticks.toNat + e.toNat < 2 ^ 64) :
    ∃ t, (Call.tcpConnect dstIp dstPort).run 1 s = (.ok (), t) ∧ Missed s t i dstIp dstPort e w := by
  have hrun := connect_eq 1 dstIp dstPort s
  obtain ⟨frames, hask⟩ := @askMac_unanswered (openConn i dstIp dstPort s) (resolveTarget s.cfg dstIp) w hmiss hrx e hworld he hroom
  have hsend := @sendSyn_apply s i dstIp dstPort hmiss
  rw [bind_ok hask] at hsend
  generalize hu : ({ openConn i dstIp dstPort s with sent := frames, ticks := (openConn i dstIp dstPort s).ticks + e, world := w } : Stack) = u
    at hsend
  have hsent : tcpSendSegment (netPoll 1) 1 i TCP_SYN [] (openConn i dstIp dstPort s) = (.ok false, u.log i (.unsent TCP_SYN)) := hsend
  have hconnect : connectOn 1 i dstIp dstPort s =
      (.ok none, (u.log i (.unsent TCP_SYN)).setConn i { (u.log i (.unsent TCP_SYN)).conns i with active := false }) := by
    rw [connectOn, bind_ok (show Exec.modify (openConn i dstIp dstPort) s = (.ok (), openConn i dstIp dstPort s) from rfl), bind_ok hsent,
      if_neg Bool.false_ne_true]
    rfl
  refine ⟨_, by rw [hrun, hslot, Option.elim_some, ignore, bind_ok hconnect]; rfl, ⟨u.conns i, ?_⟩, ?_, ?_, ?_, ?_, ?_, ?_⟩
  · rw [log_conns, ← hu]
    exact Function.update_idem ..
  all_goals
    rw [← hu]
    rfl

/-- A connection that waits for the address of its remote end. -/
theorem connect_waiting {a : Arrival} (hworld : s.world = ⟨0, []⟩ :: a :: w) (hroom : s.ticks.toNat + 200 < 2 ^ 64) :
    ((Call.tcpConnect dstIp dstPort).run 1 s).2.conns =
      Function.update s.conns i (freshConn dstIp s.tcpNextPort dstPort (1000 + s.ticks.toUInt32)) := by
  have hrun := connect_eq 1 dstIp dstPort s
  obtain ⟨frames, hask⟩ := @askMac_waiting (openConn i dstIp dstPort s) (resolveTarget s.cfg dstIp) w hmiss hrx a hworld hroom
  have hsend := @sendSyn_apply s i dstIp dstPort hmiss
  rw [bind_hang hask] at hsend
  have hconnect : connectOn 1 i dstIp dstPort s = (.hang, { openConn i dstIp dstPort s with
      sent := frames, ticks := (openConn i dstIp dstPort s).ticks + 0, world := a :: w }) := by
    rw [connectOn, bind_ok (show Exec.modify (openConn i dstIp dstPort) s = (.ok (), openConn i dstIp dstPort s) from rfl), bind_hang hsend]
  rw [hrun, hslot, Option.elim_some, ignore, bind_hang hconnect]
  rfl

end Connects

/-- What is left of the world when so many connects still go unanswered before one that waits. -/
def unanswered (k : ℕ) : List Arrival := List.replicate k ⟨200, []⟩ ++ [⟨0, []⟩, ⟨0, []⟩]

/-- A slot is free for the next connects, and the counter goes round after so many of them. -/
structure Round (k : ℕ) (s : Stack) (i : Conn) (dstIp : Ip) (old : TcpConn) : Prop where
  slot : s.freeSlot = some i
  miss : s.arpLookup (resolveTarget s.cfg dstIp) = none
  rx : s.rx = []
  world : s.world = unanswered k
  ticks : s.ticks.toNat + 200 * (k + 1) < 2 ^ 64
  last : k = 0 → s.tcpNextPort = firstPort
  left : 0 < k → s.tcpNextPort.toNat + k = 65536
  old : s.conns firstConn = old

section Round

variable {k : ℕ} {dstIp : Ip} {dstPort : UInt16} {old : TcpConn} {e : UInt64} {w : List Arrival}

theorem Missed.freeSlot (h : Missed s t i dstIp dstPort e w) (hslot : s.freeSlot = some i) : t.freeSlot = some i := by
  obtain ⟨c, hconns⟩ := h.conns
  have hfree := List.find?_some hslot
  have hsame : (fun j => !(t.conns j).active) = fun j => !(s.conns j).active := by
    funext j
    rw [hconns]
    by_cases hj : j = i
    · subst hj
      simpa using hfree
    · rw [Function.update_of_ne hj]
  rw [← hslot]
  unfold Stack.freeSlot
  rw [hsame]

/-- One of the connects. -/
theorem Missed.round (h : Missed s t i dstIp dstPort e (unanswered k)) (hi : i ≠ firstConn) (hslot : s.freeSlot = some i)
    (hmiss : s.arpLookup (resolveTarget s.cfg dstIp) = none) (hrx : s.rx = []) (hold : s.conns firstConn = old)
    (hroom : s.ticks.toNat + e.toNat + 200 * (k + 1) < 2 ^ 64) (hport : s.tcpNextPort.toNat + (k + 1) = 65536) :
    Round k t i dstIp old where
  slot := h.freeSlot hslot
  miss := by
    unfold Stack.arpLookup at hmiss ⊢
    rwa [h.cfg, h.cache]
  rx := h.rx.trans hrx
  world := h.world
  ticks := by
    rw [h.ticks, UInt64.toNat_add, Nat.mod_eq_of_lt (by omega)]
    exact hroom
  last hk := by
    have hzero : s.tcpNextPort + 1 = 0 := by
      rw [← UInt16.toNat_inj, UInt16.toNat_add]
      show (s.tcpNextPort.toNat + 1) % 65536 = 0
      omega
    rw [h.port, if_pos hzero]
    rfl
  left hk := by
    have hsum : (s.tcpNextPort + 1).toNat = s.tcpNextPort.toNat + 1 := by
      rw [UInt16.toNat_add]
      show (s.tcpNextPort.toNat + 1) % 65536 = _
      omega
    have hne : s.tcpNextPort + 1 ≠ 0 := by
      intro hzero
      rw [hzero] at hsum
      simp at hsum
    rw [h.port, if_neg hne, hsum]
    omega
  old := by
    obtain ⟨c, hconns⟩ := h.conns
    rw [hconns, Function.update_of_ne hi.symm, hold]

theorem runCalls_cons {n : ℕ} {call : Call} {calls : List Call} (h : call.run n s = (.ok (), t)) :
    runCalls n (call :: calls) s = runCalls n calls t := by
  rw [runCalls, bind_ok h]

/-- After the round the counter gives its first port again. -/
theorem Round.run (h : Round k s i dstIp old) (hi : i ≠ firstConn) :
    ∃ isn, (runCalls 1 (List.replicate (k + 1) (.tcpConnect dstIp dstPort)) s).2.conns i = freshConn dstIp firstPort dstPort isn ∧
      (runCalls 1 (List.replicate (k + 1) (.tcpConnect dstIp dstPort)) s).2.conns firstConn = old := by
  induction k generalizing s with
  | zero =>
    have hconns := @connect_waiting s i dstIp dstPort [] h.slot h.miss h.rx _ h.world h.ticks
    have hstate : (runCalls 1 (List.replicate (0 + 1) (.tcpConnect dstIp dstPort)) s).2.conns =
        ((Call.tcpConnect dstIp dstPort).run 1 s).2.conns := by
      show ((Call.run 1 (.tcpConnect dstIp dstPort) >>= fun _ => pure ()) s).2.conns = _
      exact bind_state (I := fun u : Stack => u.conns = ((Call.tcpConnect dstIp dstPort).run 1 s).2.conns) rfl fun _ _ hu => hu
    rw [hstate, hconns, Function.update_self, Function.update_of_ne hi.symm, h.last rfl]
    exact ⟨_, rfl, h.old⟩
  | succ k ih =>
    have hticks := h.ticks
    obtain ⟨t, hrun, hmissed⟩ := @connect_unanswered s i dstIp dstPort (unanswered k) h.slot h.miss h.rx 200 h.world (le_refl _)
      (by show s.ticks.toNat + 200 < _; omega)
    have hround := hmissed.round hi h.slot h.miss h.rx h.old (by show s.ticks.toNat + 200 + 200 * (k + 1) < _; omega) (h.left (by omega))
    rw [List.replicate_succ, runCalls_cons hrun]
    exact ih hround

end Round

/-- Neighbours of the peer, as many as the cache has entries. -/
def neighbours : List Bytes := (List.range ARP_CACHE_SIZE).map fun k =>
  ourMac.bytes ++ peerMac.bytes ++ be16 ETH_TYPE_ARP ++ arpPkt 2 peerMac ⟨10, 0, 2, 100 + UInt8.ofNat k⟩ ourMac ourIp

/-- The peer accepts a connection, and its address is forgotten. -/
def forgetful : List Arrival :=
  ⟨1, [peerArp]⟩ :: ⟨1, peerFrame 5000 1001 (TCP_SYN ||| TCP_ACK) [] :: neighbours⟩ :: ⟨201, []⟩ :: unanswered 16382

@[irreducible] def accepted : Stack := ((Call.tcpConnect peerIp 80).run 1 (netInit ourMac 0 forgetful)).2

def secondConn : Conn := ⟨1, by decide⟩

theorem accepted_facts : (accepted.conns firstConn).state = .established ∧
    (accepted.conns firstConn).ends = (peerIp, 80, firstPort) ∧ accepted.freeSlot = some secondConn ∧
    (accepted.arpLookup (resolveTarget accepted.cfg peerIp)).isNone = true ∧ accepted.rx.isEmpty = true ∧ accepted.tcpNextPort = 49153 ∧
    accepted.ticks = 2 ∧ accepted.world.head?.map (·.elapsed) = some 201 := by
  decide +kernel

theorem accepted_ok : (Call.tcpConnect peerIp 80).run 1 (netInit ourMac 0 forgetful) = (.ok (), accepted) := by
  have hok : ((Call.tcpConnect peerIp 80).run 1 (netInit ourMac 0 forgetful)).1 = .ok () := by decide +kernel
  unfold accepted
  rw [← hok]

/-- Two arrivals were heard. -/
theorem accepted_world : accepted.world = ⟨201, []⟩ :: unanswered 16382 := by
  have hsuffix : accepted.world <:+ forgetful := by
    have hworld := call_world 1 (.tcpConnect peerIp 80) (netInit ourMac 0 forgetful)
    rwa [accepted_ok] at hworld
  obtain ⟨-, -, -, -, -, -, -, hhead⟩ := accepted_facts
  unfold forgetful at hsuffix
  rw [List.suffix_cons_iff, List.suffix_cons_iff, List.suffix_cons_iff] at hsuffix
  rcases hsuffix with h | h | h | h
  · simp [h] at hhead
  · simp [h] at hhead
  · exact h
  · -- no later arrival is the one that was not heard yet
    obtain ⟨a, ha, helapsed⟩ := Option.map_eq_some_iff.1 hhead
    have hmem := h.subset (List.mem_of_head? ha)
    simp only [unanswered, List.mem_append, List.mem_replicate, List.mem_cons, List.not_mem_nil, or_false, or_self] at hmem
    rcases hmem with ⟨-, rfl⟩ | rfl
    · simp at helapsed
    · simp at helapsed

end Tg11Kernel.Net
