import Tg11Kernel.Net.Stack

/-! The calls of the stack. Every call that waits takes the fuel of its waits; with at least
as much fuel as there are arrivals to come, none runs out. -/

namespace Tg11Kernel.Net

open Lib Exec

/-! ### Ping -/

def pingData : Bytes := (List.range 32).map fun i => UInt8.ofNat (65 + i % 26)

def fillPingSlot (slot : ℕ) (seq : UInt16) : Exec Stack Unit := modify fun s =>
  { s with pingSlots := s.pingSlots.set slot ⟨seq, s.ticks, 0, true, false⟩ }

def sendPing (slot : ℕ) (dstIp : Ip) (seq : UInt16) (dstMac : Mac) : Exec Stack Bool := do
  let ip ← gets fun s => s.cfg.ip
  fillPingSlot slot seq
  sendEth dstMac ETH_TYPE_IPV4
    (ipv4Packet IP_PROTO_ICMP ip dstIp (icmpMessage 8 0 (be16 pingIdent ++ be16 seq ++ pingData)))

/-- The answer is whether the request was sent. -/
def netPing (n : ℕ) (dstIp : Ip) (seq : UInt16) : Exec Stack Bool := do
  match ← gets fun s => s.pingSlots.findIdx? fun p => !p.active && !p.replied with
  | none => pure false
  | some slot => do
    match ← resolveMac (netPoll n) n dstIp with
    | none => pure false
    | some dstMac => sendPing slot dstIp seq dstMac

/-- The reply of a slot is consumed. -/
def netPingCheck (seq : UInt16) : Exec Stack (Option UInt64) := fun s =>
  match s.pingSlots.findIdx? fun p => p.replied && decide (p.seq = seq) with
  | none => (.ok none, s)
  | some i => (.ok (s.pingSlots[i]?.map (·.rttMs)),
      { s with pingSlots := s.pingSlots.modify i fun p => { p with replied := false } })

/-! ### UDP -/

def udpPacket (srcIp dstIp : Ip) (srcPort dstPort : UInt16) (data : Bytes) : Bytes :=
  ipv4Packet IP_PROTO_UDP srcIp dstIp (udpHdr srcPort dstPort data.length ++ data)

def netUdpSend (n : ℕ) (dstIp : Ip) (srcPort dstPort : UInt16) (data : Bytes) : Exec Stack Bool :=
  if data.length + 20 + 8 > 1500 then pure false
  else do
    match ← resolveMac (netPoll n) n dstIp with
    | none => pure false
    | some dstMac => do
      let ip ← gets fun s => s.cfg.ip
      sendEth dstMac ETH_TYPE_IPV4 (udpPacket ip dstIp srcPort dstPort data)

def netUdpSendBroadcast (srcPort dstPort : UInt16) (data : Bytes) : Exec Stack Bool :=
  if data.length + 20 + 8 > 1500 then pure false
  else sendEth bcastMac ETH_TYPE_IPV4 (udpPacket zeroIp bcastIp srcPort dstPort data)

def udpListen (waiting : Bool) (port : UInt16) (s : Stack) : Stack :=
  { s with udpRx := { s.udpRx with waiting := waiting, port := port, received := false } }

/-- The bytes that the slot points at, as they are in `pkt_buf` now. -/
def Stack.udpData (s : Stack) (maxLen : ℕ) : Bytes := (s.pktBuf.drop s.udpRx.data).take (min s.udpRx.dataLen maxLen)

/-- The bytes copied out; there are none after a timeout. -/
def udpRecvWait (n : ℕ) (port : UInt16) (maxLen : ℕ) (timeout : UInt64) : Exec Stack Bytes := do
  let now ← gets (·.ticks)
  modify (udpListen true port)
  let received ← waitUntil (netPoll n) (now + timeout) (·.udpRx.received) n
  let data ← gets fun s => if received = true then s.udpData maxLen else []
  modify (udpListen false port)
  pure data

/-! ### TCP -/

def freshConn (dstIp : Ip) (localPort dstPort : UInt16) (isn : UInt32) : TcpConn where
  active := true
  state := .synSent
  remoteIp := dstIp
  localPort := localPort
  remotePort := dstPort
  seq := isn
  ack := 0
  rxBuf := []
  rxFin := false

def openConn (i : Conn) (dstIp : Ip) (dstPort : UInt16) (s : Stack) : Stack :=
  let isn := 1000 + s.ticks.toUInt32
  { s with
    conns := Function.update s.conns i (freshConn dstIp s.tcpNextPort dstPort isn)
    tcpNextPort := if s.tcpNextPort + 1 = 0 then 49152 else s.tcpNextPort + 1
    history := Function.update s.history i ⟨isn, []⟩ }

def advanceSeq (i : Conn) (d : UInt32) : Exec Stack Unit := do
  let c ← getConn i
  putConn i { c with seq := c.seq + d }

def deactivate (i : Conn) (state : TcpState) : Exec Stack Unit := do
  let c ← getConn i
  modify (Stack.log i (.gaveUp c))
  putConn i { c with active := false, state := state }

/-- What `net_tcp_connect` answers when its wait is over. -/
def connected (i : Conn) : Exec Stack (Option Conn) := do
  let c ← getConn i
  if c.state = .established then pure (some i)
  else do
    deactivate i .closed
    pure none

def awaitAnswer (n : ℕ) (i : Conn) : Exec Stack (Option Conn) := do
  let now ← gets (·.ticks)
  let answered ← waitUntil (netPoll n) (now + 500)
    (fun s => decide ((s.conns i).state = .established) || decide ((s.conns i).state = .closed)) n
  if answered = true then connected i
  else do
    deactivate i .closed
    pure none

/-- The SYN consumes one sequence number. -/
def handshake (n : ℕ) (i : Conn) : Exec Stack (Option Conn) := do
  advanceSeq i 1
  awaitAnswer n i

def connectOn (n : ℕ) (i : Conn) (dstIp : Ip) (dstPort : UInt16) : Exec Stack (Option Conn) := do
  modify (openConn i dstIp dstPort)
  let ok ← tcpSendSegment (netPoll n) n i TCP_SYN []
  if ok = true then handshake n i
  else do
    let c ← getConn i
    putConn i { c with active := false }
    pure none

def netTcpConnect (n : ℕ) (dstIp : Ip) (dstPort : UInt16) : Exec Stack (Option Conn) := do
  match ← gets fun s => (List.finRange NET_TCP_MAX_CONN).find? fun i => !(s.conns i).active with
  | none => pure none
  | some i => connectOn n i dstIp dstPort

/-- Chunks of up to 1400 bytes, with a short wait after each. -/
def sendChunks (n : ℕ) (i : Conn) : ℕ → Bytes → Exec Stack Bool
  | 0, _ => pure true
  | k + 1, data =>
    if data = [] then pure true
    else do
      let ok ← tcpSendSegment (netPoll n) n i (TCP_ACK ||| TCP_PSH) (data.take 1400)
      if ok = true then do
        advanceSeq i (UInt32.ofNat (data.take 1400).length)
        let now ← gets (·.ticks)
        ignore (waitUntil (netPoll n) (now + 2) (fun _ => false) n)
        sendChunks n i k (data.drop 1400)
      else pure false

def netTcpSend (n : ℕ) (i : Conn) (data : Bytes) : Exec Stack Bool := do
  let c ← getConn i
  if c.active = true ∧ c.state = .established then sendChunks n i data.length data else pure false

/-- Up to `bufSize` bytes are taken from the front. -/
def takeReceived (i : Conn) (bufSize : ℕ) : Exec Stack (Option Bytes) := do
  let c ← getConn i
  if c.rxBuf = [] then pure (some [])
  else do
    putConn i { c with rxBuf := c.rxBuf.drop bufSize }
    modify (Stack.log i (.returned (c.rxBuf.take bufSize)))
    pure (some (c.rxBuf.take bufSize))

/-- There are bytes to return, or the other side has closed. -/
def TcpConn.readable (c : TcpConn) : Bool :=
  !c.rxBuf.isEmpty || c.rxFin || decide (c.state = .closeWait) || decide (c.state = .closed)

/-- The bytes returned, none of them at the end of the stream; no answer for an error or a timeout. -/
def netTcpRecv (n : ℕ) (i : Conn) (bufSize : ℕ) (timeout : UInt64) : Exec Stack (Option Bytes) := do
  let c ← getConn i
  if c.active = true then do
    let now ← gets (·.ticks)
    let ready ← waitUntil (netPoll n) (now + timeout) (fun s => (s.conns i).readable) n
    if ready = true then takeReceived i bufSize else pure none
  else pure none

def awaitClose (n : ℕ) (i : Conn) : Exec Stack Unit := do
  let c ← getConn i
  let now ← gets (·.ticks)
  if c.active = true then ignore (waitUntil (netPoll n) (now + 200) (fun s => !(s.conns i).active) n) else pure ()

/-- The FIN is sent and its acknowledgement is waited for. -/
def sendFin (n : ℕ) (i : Conn) (state : TcpState) : Exec Stack Unit := do
  let c ← getConn i
  putConn i { c with state := state }
  ignore (tcpSendSegment (netPoll n) n i (TCP_FIN ||| TCP_ACK) [])
  advanceSeq i 1
  awaitClose n i

def closeActive (n : ℕ) (i : Conn) : TcpState → Exec Stack Unit
  | .established => sendFin n i .finWait1
  | .closeWait => sendFin n i .lastAck
  | _ => pure ()

def netTcpClose (n : ℕ) (i : Conn) : Exec Stack Unit := do
  let c ← getConn i
  if c.active = true then do
    closeActive n i c.state
    deactivate i .closed
  else pure ()

/-! ### Runs -/

/-- `net_set_defaults` -/
def netSetDefaults (mac : Mac) : NetConfig where
  ip := ⟨10, 0, 2, 15⟩
  gateway := ⟨10, 0, 2, 2⟩
  netmask := ⟨255, 255, 255, 0⟩
  dns := ⟨10, 0, 2, 3⟩
  mac := mac

/-- The stack behind `net_init`, with a card; the static variables are zero. -/
def netInit (mac : Mac) (ticks : UInt64) (world : List Arrival) : Stack where
  cfg := netSetDefaults mac
  arpCache := List.replicate ARP_CACHE_SIZE ⟨zeroIp, ⟨0, 0, 0, 0, 0, 0⟩, false⟩
  pktBuf := List.replicate 2048 0
  pingSlots := List.replicate PING_SLOTS ⟨0, 0, 0, false, false⟩
  udpRx := ⟨false, 0, zeroIp, 0, 0, 0, false⟩
  conns := fun _ => ⟨false, .closed, zeroIp, 0, 0, 0, 0, [], false⟩
  tcpNextPort := 49152
  up := true
  rx := []
  sent := []
  ticks := ticks
  world := world
  handled := []
  history := fun _ => ⟨0, []⟩

/-- A call of the kernel to the stack. -/
inductive Call where
  | poll
  | ping (dstIp : Ip) (seq : UInt16)
  | pingCheck (seq : UInt16)
  | udpSend (dstIp : Ip) (srcPort dstPort : UInt16) (data : Bytes)
  | udpSendBroadcast (srcPort dstPort : UInt16) (data : Bytes)
  | udpRecv (port : UInt16) (maxLen : ℕ) (timeout : UInt64)
  | tcpConnect (dstIp : Ip) (dstPort : UInt16)
  | tcpSend (i : Conn) (data : Bytes)
  | tcpRecv (i : Conn) (bufSize : ℕ) (timeout : UInt64)
  | tcpClose (i : Conn)

def Call.run (n : ℕ) : Call → Exec Stack Unit
  | .poll => netPoll n
  | .ping dstIp seq => ignore (netPing n dstIp seq)
  | .pingCheck seq => ignore (netPingCheck seq)
  | .udpSend dstIp srcPort dstPort data => ignore (netUdpSend n dstIp srcPort dstPort data)
  | .udpSendBroadcast srcPort dstPort data => ignore (netUdpSendBroadcast srcPort dstPort data)
  | .udpRecv port maxLen timeout => ignore (udpRecvWait n port maxLen timeout)
  | .tcpConnect dstIp dstPort => ignore (netTcpConnect n dstIp dstPort)
  | .tcpSend i data => ignore (netTcpSend n i data)
  | .tcpRecv i bufSize timeout => ignore (netTcpRecv n i bufSize timeout)
  | .tcpClose i => netTcpClose n i

/-- One call after the other. -/
def runCalls (n : ℕ) : List Call → Exec Stack Unit
  | [] => pure ()
  | call :: calls => do
    call.run n
    runCalls n calls

end Tg11Kernel.Net
