import Tg11Kernel.Net.Wire
import Tg11Kernel.Lib.Exec

/-! The network stack. The state holds what the source keeps in static variables, the frames
that wait in the network card and those that were handed to it, and the rest of the world as
a list: what happens while one call of `net_poll` after the other is made. After the end of
the list nothing arrives any more and the clock runs on, so that every wait ends. A read
outside a frame is a failure of the program; error codes are values.

Handling a TCP segment may send a segment, which may wait for an address to be resolved,
which polls the card again. The handlers therefore take the inner `net_poll` as a parameter,
with the fuel of their waiting loops. -/

namespace Tg11Kernel.Net

open Lib Exec

def ARP_CACHE_SIZE : ℕ := 16
def PING_SLOTS : ℕ := 8
def NET_TCP_MAX_CONN : ℕ := 4

def TCP_FIN : UInt8 := 0x01
def TCP_SYN : UInt8 := 0x02
def TCP_RST : UInt8 := 0x04
def TCP_PSH : UInt8 := 0x08
def TCP_ACK : UInt8 := 0x10

structure NetConfig where
  ip : Ip
  gateway : Ip
  netmask : Ip
  dns : Ip
  mac : Mac

structure ArpEntry where
  ip : Ip
  mac : Mac
  valid : Bool

structure PingSlot where
  seq : UInt16
  sendTick : UInt64
  rttMs : UInt64
  active : Bool
  replied : Bool

/-- The slot of a waiting receiver; `data` points into `pkt_buf`. -/
structure UdpRx where
  waiting : Bool
  port : UInt16
  srcIp : Ip
  srcPort : UInt16
  data : ℕ
  dataLen : ℕ
  received : Bool

inductive TcpState where
  | closed
  | synSent
  | established
  | finWait1
  | finWait2
  | closeWait
  | lastAck
  | timeWait
  deriving DecidableEq

/-- `rxBuf` holds the `rx_len` bytes that are available. -/
structure TcpConn where
  active : Bool
  state : TcpState
  remoteIp : Ip
  localPort : UInt16
  remotePort : UInt16
  seq : UInt32
  ack : UInt32
  rxBuf : Bytes
  rxFin : Bool
  deriving DecidableEq

/-- The number of a connection. -/
abbrev Conn := Fin NET_TCP_MAX_CONN

/-- What happened to a connection since it was opened: a segment reached it in the state
`c`, a segment was handed to the card or could not be, bytes were returned to the caller,
the connection was given up in the state `c`. -/
inductive TcpEvent where
  | arrived (c : TcpConn) (seg : Segment)
  | sent (flags : UInt8) (seq : UInt32) (len : ℕ)
  | unsent (flags : UInt8)
  | returned (data : Bytes)
  | gaveUp (c : TcpConn)
  deriving DecidableEq

/-- The history of a connection: its initial sequence number, and its events, the last one
first. It is kept for the statements; the source has no such record. -/
structure History where
  isn : UInt32
  events : List TcpEvent

/-- A frame handed to the card. -/
structure EthFrame where
  dst : Mac
  src : Mac
  ethertype : UInt16
  payload : Bytes

/-- What happens up to a call of `net_poll`: time passes and frames arrive. -/
structure Arrival where
  elapsed : UInt64
  frames : List Bytes

structure Stack where
  cfg : NetConfig
  arpCache : List ArpEntry
  pktBuf : Bytes
  pingSlots : List PingSlot
  udpRx : UdpRx
  conns : Conn → TcpConn
  tcpNextPort : UInt16
  /-- `e1000_up`, the frames that wait in the card and those it was given -/
  up : Bool
  rx : List Bytes
  sent : List EthFrame
  ticks : UInt64
  world : List Arrival
  /-- the frames that `handle_frame` was called for, and what happened to the connections;
  kept for the statements -/
  handled : List Bytes
  history : Conn → History

namespace Stack

def setConn (i : Conn) (c : TcpConn) (s : Stack) : Stack := { s with conns := Function.update s.conns i c }

def log (i : Conn) (e : TcpEvent) (s : Stack) : Stack :=
  { s with history := Function.update s.history i { s.history i with events := e :: (s.history i).events } }

end Stack

def getConn (i : Conn) : Exec Stack TcpConn := gets fun s => s.conns i

def putConn (i : Conn) (c : TcpConn) : Exec Stack Unit := modify (Stack.setConn i c)

/-! ### ARP cache -/

/-- An entry is updated, else a free one is taken, else the first is overwritten. -/
def arpPut (cache : List ArpEntry) (ip : Ip) (mac : Mac) : List ArpEntry :=
  match cache.findIdx? fun e => e.valid && decide (e.ip = ip) with
  | some i => cache.modify i fun e => { e with mac := mac }
  | none =>
    match cache.findIdx? fun e => !e.valid with
    | some i => cache.set i ⟨ip, mac, true⟩
    | none => cache.set 0 ⟨ip, mac, true⟩

def arpCachePut (ip : Ip) (mac : Mac) : Exec Stack Unit := modify fun s => { s with arpCache := arpPut s.arpCache ip mac }

def Stack.arpLookup (s : Stack) (ip : Ip) : Option Mac :=
  (s.arpCache.find? fun e => e.valid && decide (e.ip = ip)).map (·.mac)

/-! ### Sending -/

/-- The frame is padded to 60 bytes and goes to the card. The bytes of the padding, which
the source leaves as they are on its stack, are not part of the model. -/
def e1000Send (frame : EthFrame) : Exec Stack Bool := fun s =>
  if s.up = true then (.ok true, { s with sent := s.sent ++ [frame] }) else (.ok false, s)

def sendEth (dst : Mac) (ethertype : UInt16) (payload : Bytes) : Exec Stack Bool :=
  if payload.length + ETH_HLEN > 1518 then pure false
  else do
    let src ← gets fun s => s.cfg.mac
    e1000Send { dst, src, ethertype, payload }

def arpRequest (ip : Ip) : Exec Stack Unit := do
  let cfg ← gets (·.cfg)
  ignore (sendEth bcastMac ETH_TYPE_ARP (arpPkt 1 cfg.mac cfg.ip ⟨0, 0, 0, 0, 0, 0⟩ ip))

def arpReply (dstMac : Mac) (dstIp : Ip) : Exec Stack Unit := do
  let cfg ← gets (·.cfg)
  ignore (sendEth dstMac ETH_TYPE_ARP (arpPkt 2 cfg.mac cfg.ip dstMac dstIp))

/-! ### Waiting -/

/-- The head of a loop `while (timer_ticks() < deadline)`. When nothing arrives any more the
clock runs up to the deadline. -/
def whileBefore (deadline : UInt64) (body : Exec Stack Bool) : Exec Stack Bool := fun s =>
  if s.ticks < deadline then
    if s.world.isEmpty = true then (.ok false, { s with ticks := deadline }) else body s
  else (.ok false, s)

/-- The loop polls, and is left when `done` holds after a poll. The answer is whether it was. -/
def waitUntil (poll : Exec Stack Unit) (deadline : UInt64) (done : Stack → Bool) : ℕ → Exec Stack Bool
  | 0 => whileBefore deadline hang
  | n + 1 => whileBefore deadline do
      poll
      let stop ← gets done
      if stop = true then pure true else waitUntil poll deadline done n

/-- The addresses of a mask. -/
def Ip.mask (ip netmask : Ip) : Ip :=
  ⟨ip.b0 &&& netmask.b0, ip.b1 &&& netmask.b1, ip.b2 &&& netmask.b2, ip.b3 &&& netmask.b3⟩

def resolveTarget (cfg : NetConfig) (dstIp : Ip) : Ip :=
  if dstIp.mask cfg.netmask = cfg.ip.mask cfg.netmask then dstIp else cfg.gateway

/-- An address that the cache does not have is asked for. -/
def askMac (poll : Exec Stack Unit) (n : ℕ) (target : Ip) : Exec Stack (Option Mac) := do
  arpRequest target
  let now ← gets (·.ticks)
  let found ← waitUntil poll (now + 200) (fun s => (s.arpLookup target).isSome) n
  if found = true then gets fun s => s.arpLookup target else pure none

def resolveMac (poll : Exec Stack Unit) (n : ℕ) (dstIp : Ip) : Exec Stack (Option Mac) := do
  let target ← gets fun s => resolveTarget s.cfg dstIp
  match ← gets fun s => s.arpLookup target with
  | some mac => pure (some mac)
  | none => askMac poll n target

/-! ### TCP segments -/

def logSend (i : Conn) (flags : UInt8) (seq : UInt32) (len : ℕ) (ok : Bool) : Exec Stack Bool := do
  modify (Stack.log i (if ok = true then .sent flags seq len else .unsent flags))
  pure ok

def notSent (i : Conn) (flags : UInt8) : Exec Stack Bool := do
  modify (Stack.log i (.unsent flags))
  pure false

/-- The segment is built from the connection as it is when the address is known. -/
def emitSegment (i : Conn) (flags : UInt8) (data : Bytes) (dstMac : Mac) : Exec Stack Bool := do
  let c ← getConn i
  let cfg ← gets (·.cfg)
  let seg := tcpSegment cfg.ip c.remoteIp c.localPort c.remotePort c.seq c.ack flags data
  let ok ← sendEth dstMac ETH_TYPE_IPV4 (ipv4Packet IP_PROTO_TCP cfg.ip c.remoteIp seg)
  logSend i flags c.seq data.length ok

def tcpSendSegment (poll : Exec Stack Unit) (n : ℕ) (i : Conn) (flags : UInt8) (data : Bytes) : Exec Stack Bool :=
  if 20 + data.length + 20 > 1500 then notSent i flags
  else do
    let c ← getConn i
    match ← resolveMac poll n c.remoteIp with
    | none => notSent i flags
    | some dstMac => emitSegment i flags data dstMac

/-- The connection of a segment. -/
def Stack.findConn (s : Stack) (srcIp : Ip) (seg : Segment) : Option Conn :=
  (List.finRange NET_TCP_MAX_CONN).find? fun i =>
    (s.conns i).active && decide ((s.conns i).localPort = seg.dstPort) && decide ((s.conns i).remotePort = seg.srcPort) &&
      decide ((s.conns i).remoteIp = srcIp)

def has (flags flag : UInt8) : Bool := flags &&& flag == flag

/-- The state `TCP_SYN_SENT`. -/
def onSynSent (poll : Exec Stack Unit) (n : ℕ) (i : Conn) (seg : Segment) : Exec Stack Unit :=
  if has seg.flags (TCP_SYN ||| TCP_ACK) = true then do
    let c ← getConn i
    putConn i { c with ack := seg.seqNum + 1, seq := seg.ackNum, state := .established }
    ignore (tcpSendSegment poll n i TCP_ACK [])
  else pure ()

/-- Data in order is taken as far as there is room. -/
def TcpConn.accept (c : TcpConn) (seg : Segment) : TcpConn :=
  { c with
    rxBuf := c.rxBuf ++ seg.data.take (NET_TCP_BUF_SIZE - c.rxBuf.length)
    ack := seg.seqNum + UInt32.ofNat seg.data.length }

def takeData (poll : Exec Stack Unit) (n : ℕ) (i : Conn) (seg : Segment) : Exec Stack Unit := do
  let c ← getConn i
  if 0 < seg.data.length ∧ seg.seqNum = c.ack then do
    putConn i (c.accept seg)
    ignore (tcpSendSegment poll n i TCP_ACK [])
  else pure ()

/-- The FIN of the other side. -/
def TcpConn.finish (c : TcpConn) (seg : Segment) : TcpConn :=
  { c with
    ack := if seg.data.length = 0 then seg.seqNum + 1 else c.ack
    rxFin := true
    state := .closeWait }

def takeFin (poll : Exec Stack Unit) (n : ℕ) (i : Conn) (seg : Segment) : Exec Stack Unit :=
  if has seg.flags TCP_FIN = true then do
    let c ← getConn i
    putConn i (c.finish seg)
    ignore (tcpSendSegment poll n i TCP_ACK [])
  else pure ()

/-- The state `TCP_ESTABLISHED`. -/
def onEstablished (poll : Exec Stack Unit) (n : ℕ) (i : Conn) (seg : Segment) : Exec Stack Unit := do
  takeData poll n i seg
  takeFin poll n i seg

def shutConn (i : Conn) : Exec Stack Unit := do
  let c ← getConn i
  putConn i { c with state := .closed, active := false }

/-- The end of both states that wait for the FIN of the other side. -/
def onLastFin (poll : Exec Stack Unit) (n : ℕ) (i : Conn) : Exec Stack Unit := do
  ignore (tcpSendSegment poll n i TCP_ACK [])
  shutConn i

/-- The state `TCP_FIN_WAIT_1`. -/
def onFinWait1 (poll : Exec Stack Unit) (n : ℕ) (i : Conn) (seg : Segment) : Exec Stack Unit :=
  if has seg.flags TCP_ACK = true then do
    let c ← getConn i
    if has seg.flags TCP_FIN = true then do
      putConn i { c with seq := seg.ackNum, ack := seg.seqNum + 1, state := .timeWait }
      onLastFin poll n i
    else putConn i { c with seq := seg.ackNum, state := .finWait2 }
  else pure ()

/-- The state `TCP_FIN_WAIT_2`. -/
def onFinWait2 (poll : Exec Stack Unit) (n : ℕ) (i : Conn) (seg : Segment) : Exec Stack Unit :=
  if has seg.flags TCP_FIN = true then do
    let c ← getConn i
    putConn i { c with ack := seg.seqNum + 1 }
    onLastFin poll n i
  else pure ()

/-- The state `TCP_LAST_ACK`. -/
def onLastAck (i : Conn) (seg : Segment) : Exec Stack Unit :=
  if has seg.flags TCP_ACK = true then shutConn i else pure ()

def onSegment (poll : Exec Stack Unit) (n : ℕ) (i : Conn) (seg : Segment) : TcpState → Exec Stack Unit
  | .synSent => onSynSent poll n i seg
  | .established => onEstablished poll n i seg
  | .finWait1 => onFinWait1 poll n i seg
  | .finWait2 => onFinWait2 poll n i seg
  | .lastAck => onLastAck i seg
  | _ => pure ()

/-- A segment reaches its connection. -/
def deliver (poll : Exec Stack Unit) (n : ℕ) (i : Conn) (seg : Segment) : Exec Stack Unit := do
  let c ← getConn i
  modify (Stack.log i (.arrived c seg))
  if has seg.flags TCP_RST = true then shutConn i else onSegment poll n i seg c.state

def dispatchSegment (poll : Exec Stack Unit) (n : ℕ) (srcIp : Ip) (seg : Segment) : Exec Stack Unit := do
  match ← gets fun s => s.findConn srcIp seg with
  | none => pure ()
  | some i => deliver poll n i seg

def handleTcp (poll : Exec Stack Unit) (n : ℕ) (frame : Bytes) (off len : ℕ) (srcIp : Ip) : Exec Stack Unit := do
  match ← ofOption (parseTcp frame off len) with
  | none => pure ()
  | some seg => dispatchSegment poll n srcIp seg

/-! ### The other handlers -/

/-- Requests for our address are answered. -/
def answerArp (arp : ArpPkt) : Exec Stack Unit := do
  arpCachePut arp.senderIp arp.senderMac
  let ip ← gets fun s => s.cfg.ip
  if arp.opcode = 1 ∧ arp.targetIp = ip then arpReply arp.senderMac arp.senderIp else pure ()

def handleArp (frame : Bytes) (off len : ℕ) : Exec Stack Unit := do
  match ← ofOption (parseArp frame off len) with
  | none => pure ()
  | some arp => answerArp arp

/-- An echo reply goes only to an address that the cache has. -/
def echoReply (msg : IcmpMsg) (srcIp : Ip) : Exec Stack Unit :=
  if msg.bytes.length + 20 > 1500 then pure ()
  else do
    let ip ← gets fun s => s.cfg.ip
    match ← gets fun s => s.arpLookup srcIp with
    | none => pure ()
    | some dstMac =>
      ignore (sendEth dstMac ETH_TYPE_IPV4 (ipv4Packet IP_PROTO_ICMP ip srcIp (icmpMessage 0 msg.code (msg.bytes.drop 4))))

def pingIdent : UInt16 := 0x1234

/-- The first slot that waits for the reply is filled. -/
def pingReply (msg : IcmpMsg) : Exec Stack Unit := modify fun s =>
  match s.pingSlots.findIdx? fun p => p.active && decide (msg.ident = pingIdent) && decide (msg.seq = p.seq) with
  | none => s
  | some i => { s with
      pingSlots := s.pingSlots.modify i fun p =>
        { p with rttMs := (s.ticks - p.sendTick) * 10, replied := true, active := false } }

def answerIcmp (msg : IcmpMsg) (srcIp : Ip) : Exec Stack Unit :=
  if msg.type = 8 ∧ msg.code = 0 then echoReply msg srcIp
  else if msg.type = 0 ∧ msg.code = 0 then pingReply msg
  else pure ()

def handleIcmp (frame : Bytes) (off len : ℕ) (srcIp : Ip) : Exec Stack Unit := do
  match ← ofOption (parseIcmp frame off len) with
  | none => pure ()
  | some msg => answerIcmp msg srcIp

/-- The waiting receiver gets the first datagram for its port; others go to the serial log. -/
def UdpRx.offer (rx : UdpRx) (d : Datagram) (srcIp : Ip) : UdpRx :=
  if rx.waiting = true ∧ d.dstPort = rx.port ∧ rx.received = false then
    { rx with srcIp := srcIp, srcPort := d.srcPort, data := d.data, dataLen := d.dataLen, received := true }
  else rx

def handleUdp (frame : Bytes) (off len : ℕ) (srcIp : Ip) : Exec Stack Unit := do
  match ← ofOption (parseUdp frame off len) with
  | none => pure ()
  | some d => modify fun s => { s with udpRx := s.udpRx.offer d srcIp }

def dispatchIpv4 (poll : Exec Stack Unit) (n : ℕ) (frame : Bytes) (pkt : Ipv4Pkt) : Exec Stack Unit :=
  if pkt.protocol = IP_PROTO_ICMP then handleIcmp frame pkt.payload pkt.payloadLen pkt.srcIp
  else if pkt.protocol = IP_PROTO_TCP then handleTcp poll n frame pkt.payload pkt.payloadLen pkt.srcIp
  else if pkt.protocol = IP_PROTO_UDP then handleUdp frame pkt.payload pkt.payloadLen pkt.srcIp
  else pure ()

def handleIpv4 (poll : Exec Stack Unit) (n : ℕ) (frame : Bytes) (off len : ℕ) : Exec Stack Unit := do
  let ip ← gets fun s => s.cfg.ip
  match ← ofOption (parseIpv4 ip frame off len) with
  | none => pure ()
  | some pkt => dispatchIpv4 poll n frame pkt

def dispatchFrame (poll : Exec Stack Unit) (n : ℕ) (frame : Bytes) (etype : UInt16) : Exec Stack Unit :=
  if etype = ETH_TYPE_ARP then handleArp frame ETH_HLEN (frame.length - ETH_HLEN)
  else if etype = ETH_TYPE_IPV4 then handleIpv4 poll n frame ETH_HLEN (frame.length - ETH_HLEN)
  else pure ()

/-- The frame is the front of `pkt_buf`, of the length that was received. -/
def handleFrame (poll : Exec Stack Unit) (n : ℕ) (frame : Bytes) : Exec Stack Unit :=
  if frame.length < ETH_HLEN then pure ()
  else do
    let etype ← ofOption (u16 frame 12)
    dispatchFrame poll n frame etype

/-! ### Polling -/

def Stack.arrive (s : Stack) : Stack :=
  match s.world with
  | [] => s
  | a :: world => { s with ticks := s.ticks + a.elapsed, rx := s.rx ++ a.frames, world := world }

/-- The frame is copied to the front of `pkt_buf`. -/
def Stack.receive (s : Stack) (frame : Bytes) (rx : List Bytes) : Stack :=
  { s with pktBuf := frame ++ s.pktBuf.drop frame.length, rx := rx, handled := s.handled ++ [frame] }

/-- `e1000_poll_rx` into `pkt_buf`: what is longer than the buffer is cut. -/
def e1000PollRx : Exec Stack (Option Bytes) := fun s =>
  if s.up = true then
    match s.rx with
    | [] => (.ok none, s)
    | f :: rx => (.ok (some (f.take 2048)), s.receive (f.take 2048) rx)
  else (.ok none, s)

/-- At most so many packets. -/
def pollLoop (handle : Bytes → Exec Stack Unit) : ℕ → Exec Stack Unit
  | 0 => pure ()
  | count + 1 => do
    match ← e1000PollRx with
    | none => pure ()
    | some frame => do
      handle frame
      pollLoop handle count

/-- `net_poll`, up to 64 packets. Waits inside it poll again, each time with less fuel. -/
def netPoll : ℕ → Exec Stack Unit
  | 0 => do
    modify Stack.arrive
    pollLoop (handleFrame hang 0) 64
  | n + 1 => do
    modify Stack.arrive
    pollLoop (handleFrame (netPoll n) n) 64

end Tg11Kernel.Net
