import Tg11Kernel.Net.Api
import Tg11Kernel.Lib.Walk

/-! Programs that are as steady as their parts. A relation is steady when the changes that
the handlers leave aside keep it, and so do the packets that are built without a frame in
hand. Every call but the two of the ping slots walks along it, if a poll does. -/

namespace Tg11Kernel.Net

open Lib Exec

/-- What is left aside. -/
def Stack.overheard (s : Stack) : NetConfig × Bool × List ArpEntry × List PingSlot × List Bytes :=
  (s.cfg, s.up, s.arpCache, s.pingSlots, s.handled)

/-- The calls that fill and empty the ping slots. -/
def Call.Pings : Call → Prop
  | .ping _ _ => True
  | .pingCheck _ => True
  | _ => False

structure Steady (Move : Stack → Stack → Prop) : Prop where
  quiet : ∀ s t, t.overheard = s.overheard → t.sent = s.sent → Move s t
  arp : ∀ dst payload, Walks Move (sendEth dst ETH_TYPE_ARP payload)
  tcp : ∀ dst srcIp dstIp srcPort dstPort seq ack flags data, Walks Move (sendEth dst ETH_TYPE_IPV4
    (ipv4Packet IP_PROTO_TCP srcIp dstIp (tcpSegment srcIp dstIp srcPort dstPort seq ack flags data)))
  udp : ∀ dst srcIp dstIp srcPort dstPort data,
    Walks Move (sendEth dst ETH_TYPE_IPV4 (udpPacket srcIp dstIp srcPort dstPort data))

namespace Steady

variable {Move : Stack → Stack → Prop} {poll : Exec Stack Unit} {n : ℕ} (h : Steady Move)

include h

theorem modify {g : Stack → Stack} (hquiet : ∀ s, (g s).overheard = s.overheard) (hsent : ∀ s, (g s).sent = s.sent) :
    Walks Move (Exec.modify g) := Walks.modify fun s => h.quiet s _ (hquiet s) (hsent s)

theorem putConn (i : Conn) (c : TcpConn) : Walks Move (putConn i c) := h.modify (fun _ => rfl) fun _ => rfl

theorem log (i : Conn) (e : TcpEvent) : Walks Move (Exec.modify (Stack.log i e)) := h.modify (fun _ => rfl) fun _ => rfl

theorem shutConn (i : Conn) : Walks Move (shutConn i) := Walks.read_bind fun _ => h.putConn i _

theorem arrive : Walks Move (Exec.modify Stack.arrive) := by
  apply h.modify
  · intro s
    unfold Stack.arrive
    split <;> rfl
  · intro s
    unfold Stack.arrive
    split <;> rfl

section Polls

variable (hpoll : Walks Move poll)

include hpoll

theorem waitUntil (deadline : UInt64) (done : Stack → Bool) (k : ℕ) : Walks Move (waitUntil poll deadline done k) := by
  have hbefore : ∀ {body : Exec Stack Bool}, Walks Move body → Walks Move (whileBefore deadline body) := by
    intro body hbody s
    unfold Leads whileBefore
    split_ifs
    · exact .single (h.quiet s _ rfl rfl)
    · exact hbody s
    · exact .refl
  induction k with
  | zero => exact hbefore Walks.hang
  | succ k ih =>
    apply hbefore
    apply hpoll.bind
    intro _
    apply Walks.read_bind
    intro stop
    split_ifs
    · exact Walks.pure
    · exact ih

theorem resolveMac (dstIp : Ip) : Walks Move (resolveMac poll n dstIp) := by
  apply Walks.read_bind
  intro target
  apply Walks.read_bind
  intro mac
  cases mac with
  | some mac => exact Walks.pure
  | none =>
    apply Walks.bind
    · exact Walks.read_bind fun cfg => (h.arp _ _).ignore
    · intro _
      apply Walks.read_bind
      intro now
      apply (h.waitUntil hpoll _ _ n).bind
      intro found
      split_ifs
      · exact Walks.gets
      · exact Walks.pure

theorem tcpSendSegment (i : Conn) (flags : UInt8) (data : Bytes) : Walks Move (tcpSendSegment poll n i flags data) := by
  have hnot : Walks Move (notSent i flags) := (h.log i _).bind fun _ => Walks.pure
  unfold Net.tcpSendSegment
  split_ifs
  · exact hnot
  · apply Walks.read_bind
    intro c
    apply (h.resolveMac hpoll c.remoteIp).bind
    intro mac
    cases mac with
    | none => exact hnot
    | some dstMac =>
      apply Walks.read_bind
      intro c
      apply Walks.read_bind
      intro cfg
      apply (h.tcp _ _ _ _ _ _ _ _ _).bind
      intro ok
      exact (h.log i _).bind fun _ => Walks.pure

theorem onSegment (i : Conn) (seg : Segment) (state : TcpState) : Walks Move (onSegment poll n i seg state) := by
  have hack : Walks Move (ignore (Net.tcpSendSegment poll n i TCP_ACK [])) := (h.tcpSendSegment hpoll i TCP_ACK []).ignore
  have hlast : Walks Move (onLastFin poll n i) := hack.bind fun _ => h.shutConn i
  cases state with
  | synSent =>
    unfold Net.onSegment onSynSent
    split_ifs
    · exact Walks.read_bind fun c => (h.putConn i _).bind fun _ => hack
    · exact Walks.pure
  | established =>
    unfold Net.onSegment onEstablished
    apply Walks.bind
    · unfold takeData
      apply Walks.read_bind
      intro c
      split_ifs
      · exact (h.putConn i _).bind fun _ => hack
      · exact Walks.pure
    · intro _
      unfold takeFin
      split_ifs
      · exact Walks.read_bind fun c => (h.putConn i _).bind fun _ => hack
      · exact Walks.pure
  | finWait1 =>
    unfold Net.onSegment onFinWait1
    split_ifs
    · exact Walks.read_bind fun c => (h.putConn i _).bind fun _ => hlast
    · exact Walks.read_bind fun c => h.putConn i _
    · exact Walks.pure
  | finWait2 =>
    unfold Net.onSegment onFinWait2
    split_ifs
    · exact Walks.read_bind fun c => (h.putConn i _).bind fun _ => hlast
    · exact Walks.pure
  | lastAck =>
    unfold Net.onSegment onLastAck
    split_ifs
    · exact h.shutConn i
    · exact Walks.pure
  | closed => exact Walks.pure
  | closeWait => exact Walks.pure
  | timeWait => exact Walks.pure

theorem handleTcp (frame : Bytes) (off len : ℕ) (srcIp : Ip) : Walks Move (handleTcp poll n frame off len srcIp) := by
  apply Walks.ofOption_bind
  intro found _
  cases found with
  | none => exact Walks.pure
  | some seg =>
    apply Walks.read_bind
    intro conn
    cases conn with
    | none => exact Walks.pure
    | some i =>
      apply Walks.read_bind
      intro c
      apply (h.log i _).bind
      intro _
      split_ifs
      · exact h.shutConn i
      · exact h.onSegment hpoll i seg c.state

end Polls

theorem handleUdp (frame : Bytes) (off len : ℕ) (srcIp : Ip) : Walks Move (handleUdp frame off len srcIp) := by
  apply Walks.ofOption_bind
  intro d _
  cases d with
  | none => exact Walks.pure
  | some d => exact h.modify (fun _ => rfl) fun _ => rfl

/-! ### Calls -/

theorem deactivate (i : Conn) (state : TcpState) : Walks Move (deactivate i state) :=
  Walks.read_bind fun _ => (h.log i _).bind fun _ => h.putConn i _

theorem advanceSeq (i : Conn) (d : UInt32) : Walks Move (advanceSeq i d) := Walks.read_bind fun _ => h.putConn i _

variable {i : Conn} (hpoll : Walks Move (netPoll n))

include hpoll

theorem netUdpSend (dstIp : Ip) (srcPort dstPort : UInt16) (data : Bytes) : Walks Move (netUdpSend n dstIp srcPort dstPort data) := by
  unfold Net.netUdpSend
  split_ifs
  · exact Walks.pure
  · apply (h.resolveMac hpoll dstIp).bind
    intro mac
    cases mac with
    | none => exact Walks.pure
    | some dstMac => exact Walks.read_bind fun ip => h.udp _ _ _ _ _ _

theorem udpRecvWait (port : UInt16) (maxLen : ℕ) (timeout : UInt64) : Walks Move (udpRecvWait n port maxLen timeout) := by
  apply Walks.read_bind
  intro now
  refine Walks.modify_bind (fun s => h.quiet s _ rfl rfl) ?_
  apply (h.waitUntil hpoll _ _ n).bind
  intro received
  apply Walks.read_bind
  intro data
  exact Walks.modify_bind (fun s => h.quiet s _ rfl rfl) Walks.pure

theorem awaitAnswer : Walks Move (awaitAnswer n i) := by
  have hclosed : Walks Move (do Net.deactivate i .closed; pure none : Exec Stack (Option Conn)) :=
    (h.deactivate i .closed).bind fun _ => Walks.pure
  apply Walks.read_bind
  intro now
  apply (h.waitUntil hpoll _ _ n).bind
  intro answered
  split_ifs
  · apply Walks.read_bind
    intro c
    split_ifs
    · exact Walks.pure
    · exact hclosed
  · exact hclosed

theorem netTcpConnect (dstIp : Ip) (dstPort : UInt16) : Walks Move (netTcpConnect n dstIp dstPort) := by
  apply Walks.read_bind
  intro slot
  cases slot with
  | none => exact Walks.pure
  | some i =>
    refine Walks.modify_bind (fun s => h.quiet s _ rfl rfl) ?_
    apply (h.tcpSendSegment hpoll i TCP_SYN []).bind
    intro ok
    split_ifs
    · exact (h.advanceSeq i 1).bind fun _ => h.awaitAnswer hpoll
    · exact Walks.read_bind fun c => (h.putConn i _).bind fun _ => Walks.pure

theorem sendChunks (k : ℕ) (data : Bytes) : Walks Move (sendChunks n i k data) := by
  induction k generalizing data with
  | zero => exact Walks.pure
  | succ k ih =>
    unfold Net.sendChunks
    split_ifs
    · exact Walks.pure
    · apply (h.tcpSendSegment hpoll i _ _).bind
      intro ok
      split_ifs
      · apply (h.advanceSeq i _).bind
        intro _
        apply Walks.read_bind
        intro now
        apply (h.waitUntil hpoll _ _ n).ignore.bind
        intro _
        exact ih _
      · exact Walks.pure

theorem netTcpRecv (bufSize : ℕ) (timeout : UInt64) : Walks Move (netTcpRecv n i bufSize timeout) := by
  apply Walks.read_bind
  intro c
  split_ifs
  · apply Walks.read_bind
    intro now
    apply (h.waitUntil hpoll _ _ n).bind
    intro ready
    split_ifs
    · apply Walks.read_bind
      intro c
      split_ifs
      · exact Walks.pure
      · exact (h.putConn i _).bind fun _ => (h.log i _).bind fun _ => Walks.pure
    · exact Walks.pure
  · exact Walks.pure

theorem sendFin (state : TcpState) : Walks Move (sendFin n i state) := by
  apply Walks.read_bind
  intro c
  apply (h.putConn i _).bind
  intro _
  apply (h.tcpSendSegment hpoll i _ _).ignore.bind
  intro _
  apply (h.advanceSeq i 1).bind
  intro _
  apply Walks.read_bind
  intro c
  apply Walks.read_bind
  intro now
  split_ifs
  · exact (h.waitUntil hpoll _ _ n).ignore
  · exact Walks.pure

theorem netTcpClose : Walks Move (netTcpClose n i) := by
  apply Walks.read_bind
  intro c
  split_ifs
  · have hclose : Walks Move (closeActive n i c.state) := by
      cases c.state with
      | established => exact h.sendFin hpoll .finWait1
      | closeWait => exact h.sendFin hpoll .lastAck
      | _ => exact Walks.pure
    exact hclose.bind fun _ => h.deactivate i .closed
  · exact Walks.pure

theorem call {call : Call} (hcall : ¬ call.Pings) : Walks Move (call.run n) := by
  cases call with
  | poll => exact hpoll
  | ping dstIp seq => exact absurd trivial hcall
  | pingCheck seq => exact absurd trivial hcall
  | udpSend dstIp srcPort dstPort data => exact (h.netUdpSend hpoll dstIp srcPort dstPort data).ignore
  | udpSendBroadcast srcPort dstPort data =>
    have hsend : Walks Move (netUdpSendBroadcast srcPort dstPort data) := by
      unfold netUdpSendBroadcast
      split_ifs
      · exact Walks.pure
      · exact h.udp _ _ _ _ _ _
    exact hsend.ignore
  | udpRecv port maxLen timeout => exact (h.udpRecvWait hpoll port maxLen timeout).ignore
  | tcpConnect dstIp dstPort => exact (h.netTcpConnect hpoll dstIp dstPort).ignore
  | tcpSend i data =>
    have hsend : Walks Move (netTcpSend n i data) := by
      apply Walks.read_bind
      intro c
      split_ifs
      · exact h.sendChunks hpoll _ data
      · exact Walks.pure
    exact hsend.ignore
  | tcpRecv i bufSize timeout => exact (h.netTcpRecv hpoll bufSize timeout).ignore
  | tcpClose i => exact h.netTcpClose hpoll

end Steady

end Tg11Kernel.Net
