import Tg11Kernel.Lib.OnesComplement

/-! What is on the wire: addresses, the fields of headers, and the packets that the stack
reads and builds. A pointer into a frame is an offset; a read at or behind the length of the
frame has no result. The fields are in network order: where the source swaps a field with
`htons` or `ntohl` between the wire and the little-endian machine, the bytes are read and
written here in their order on the wire. -/

namespace Tg11Kernel.Net

open Lib

abbrev Bytes := List UInt8

structure Ip where
  b0 : UInt8
  b1 : UInt8
  b2 : UInt8
  b3 : UInt8
  deriving DecidableEq

structure Mac where
  b0 : UInt8
  b1 : UInt8
  b2 : UInt8
  b3 : UInt8
  b4 : UInt8
  b5 : UInt8
  deriving DecidableEq

def Ip.bytes (ip : Ip) : Bytes := [ip.b0, ip.b1, ip.b2, ip.b3]

def Mac.bytes (mac : Mac) : Bytes := [mac.b0, mac.b1, mac.b2, mac.b3, mac.b4, mac.b5]

def zeroIp : Ip := ⟨0, 0, 0, 0⟩
def bcastIp : Ip := ⟨255, 255, 255, 255⟩
def bcastMac : Mac := ⟨0xFF, 0xFF, 0xFF, 0xFF, 0xFF, 0xFF⟩

def ETH_HLEN : ℕ := 14
def ETH_TYPE_ARP : UInt16 := 0x0806
def ETH_TYPE_IPV4 : UInt16 := 0x0800
def IP_PROTO_ICMP : UInt8 := 1
def IP_PROTO_TCP : UInt8 := 6
def IP_PROTO_UDP : UInt8 := 17

/-- `htons` -/
def htons (v : UInt16) : UInt16 := (v >>> 8) ||| (v <<< 8)

/-! ### Writing -/

def be16 (v : UInt16) : Bytes := [(v >>> 8).toUInt8, v.toUInt8]

def be32 (v : UInt32) : Bytes := [(v >>> 24).toUInt8, (v >>> 16).toUInt8, (v >>> 8).toUInt8, v.toUInt8]

/-- A 16-bit field that is stored as the machine has it, without a swap. -/
def le16 (v : UInt16) : Bytes := [v.toUInt8, (v >>> 8).toUInt8]

/-! ### Reading -/

def u8 (frame : Bytes) (i : ℕ) : Option UInt8 := frame[i]?

def u16 (frame : Bytes) (i : ℕ) : Option UInt16 := do
  let b0 ← frame[i]?
  let b1 ← frame[i + 1]?
  some (b0.toUInt16 <<< 8 ||| b1.toUInt16)

def u32 (frame : Bytes) (i : ℕ) : Option UInt32 := do
  let b0 ← frame[i]?
  let b1 ← frame[i + 1]?
  let b2 ← frame[i + 2]?
  let b3 ← frame[i + 3]?
  some (b0.toUInt32 <<< 24 ||| b1.toUInt32 <<< 16 ||| b2.toUInt32 <<< 8 ||| b3.toUInt32)

def ipAt (frame : Bytes) (i : ℕ) : Option Ip := do
  let b0 ← frame[i]?
  let b1 ← frame[i + 1]?
  let b2 ← frame[i + 2]?
  let b3 ← frame[i + 3]?
  some ⟨b0, b1, b2, b3⟩

def macAt (frame : Bytes) (i : ℕ) : Option Mac := do
  let b0 ← frame[i]?
  let b1 ← frame[i + 1]?
  let b2 ← frame[i + 2]?
  let b3 ← frame[i + 3]?
  let b4 ← frame[i + 4]?
  let b5 ← frame[i + 5]?
  some ⟨b0, b1, b2, b3, b4, b5⟩

/-- A copy of `n` bytes. -/
def bytesAt (frame : Bytes) (i n : ℕ) : Option Bytes :=
  if i + n ≤ frame.length then some ((frame.drop i).take n) else none

/-! ### What a frame holds

The answer `none` of a parser stands for a packet that is dropped. Outside it there is no
result when a read falls outside the frame. -/

/-- `struct arp_pkt`, as far as it is used. -/
structure ArpPkt where
  opcode : UInt16
  senderMac : Mac
  senderIp : Ip
  targetIp : Ip

def parseArp (frame : Bytes) (off len : ℕ) : Option (Option ArpPkt) :=
  if len < 28 then some none
  else do
    let hwType ← u16 frame off
    let protoType ← u16 frame (off + 2)
    if hwType ≠ 1 ∨ protoType ≠ 0x0800 then some none
    else do
      let hwLen ← u8 frame (off + 4)
      let protoLen ← u8 frame (off + 5)
      if hwLen ≠ 6 ∨ protoLen ≠ 4 then some none
      else do
        let senderMac ← macAt frame (off + 8)
        let senderIp ← ipAt frame (off + 14)
        let opcode ← u16 frame (off + 6)
        let targetIp ← ipAt frame (off + 24)
        some (some { opcode, senderMac, senderIp, targetIp })

/-- The message is copied as a whole for an echo reply. -/
structure IcmpMsg where
  type : UInt8
  code : UInt8
  ident : UInt16
  seq : UInt16
  bytes : Bytes

def parseIcmp (frame : Bytes) (off len : ℕ) : Option (Option IcmpMsg) :=
  if len < 8 then some none
  else do
    let type ← u8 frame off
    let code ← u8 frame (off + 1)
    let ident ← u16 frame (off + 4)
    let seq ← u16 frame (off + 6)
    let bytes ← bytesAt frame off len
    some (some { type, code, ident, seq, bytes })

/-- A datagram; `data` is a pointer. -/
structure Datagram where
  srcPort : UInt16
  dstPort : UInt16
  data : ℕ
  dataLen : ℕ
  deriving DecidableEq

def parseUdp (frame : Bytes) (off len : ℕ) : Option (Option Datagram) :=
  if len < 8 then some none
  else do
    let srcPort ← u16 frame off
    let dstPort ← u16 frame (off + 2)
    let udpLen ← u16 frame (off + 4)
    if udpLen.toNat < 8 ∨ udpLen.toNat > len then some none
    else some (some { srcPort, dstPort, data := off + 8, dataLen := udpLen.toNat - 8 })

structure Segment where
  srcPort : UInt16
  dstPort : UInt16
  seqNum : UInt32
  ackNum : UInt32
  flags : UInt8
  data : Bytes
  deriving DecidableEq

def parseTcp (frame : Bytes) (off len : ℕ) : Option (Option Segment) :=
  if len < 20 then some none
  else do
    let srcPort ← u16 frame off
    let dstPort ← u16 frame (off + 2)
    let seqNum ← u32 frame (off + 4)
    let ackNum ← u32 frame (off + 8)
    let flags ← u8 frame (off + 13)
    let dataOff ← u8 frame (off + 12)
    let hdrLen := ((dataOff >>> 4) &&& 0x0F).toNat * 4
    if hdrLen < 20 ∨ hdrLen > len then some none
    else do
      let data ← bytesAt frame (off + hdrLen) (len - hdrLen)
      some (some { srcPort, dstPort, seqNum, ackNum, flags, data })

/-- The payload of an IPv4 packet; `payload` is a pointer. -/
structure Ipv4Pkt where
  protocol : UInt8
  srcIp : Ip
  payload : ℕ
  payloadLen : ℕ

/-- Packets for others than `ip` and the broadcast address are dropped. -/
def parseIpv4 (ip : Ip) (frame : Bytes) (off len : ℕ) : Option (Option Ipv4Pkt) :=
  if len < 20 then some none
  else do
    let verIhl ← u8 frame off
    if verIhl >>> 4 ≠ 4 then some none
    else do
      let hdrLen := (verIhl &&& 0x0F).toNat * 4
      let totalLen ← u16 frame (off + 2)
      if hdrLen < 20 ∨ totalLen.toNat < hdrLen ∨ totalLen.toNat > len then some none
      else do
        let dstIp ← ipAt frame (off + 16)
        if dstIp ≠ ip ∧ dstIp ≠ bcastIp then some none
        else do
          let protocol ← u8 frame (off + 9)
          let srcIp ← ipAt frame (off + 12)
          some (some { protocol, srcIp, payload := off + hdrLen, payloadLen := totalLen.toNat - hdrLen })

/-! ### Checksums -/

/-- Stored without a swap. -/
def ipChecksum (data : Bytes) : UInt16 := ~~~UInt16.ofNat (foldCarries (littleWords data).sum)

/-- The words of the pseudo header. -/
def pseudoSum (srcIp dstIp : Ip) (tcpLen : ℕ) : ℕ :=
  (256 * srcIp.b0.toNat + srcIp.b1.toNat) + (256 * srcIp.b2.toNat + srcIp.b3.toNat) +
    (256 * dstIp.b0.toNat + dstIp.b1.toNat) + (256 * dstIp.b2.toNat + dstIp.b3.toNat) + IP_PROTO_TCP.toNat + tcpLen % 65536

/-- Stored without a swap. -/
def tcpChecksum (srcIp dstIp : Ip) (seg : Bytes) : UInt16 :=
  htons (~~~UInt16.ofNat (foldCarries (pseudoSum srcIp dstIp seg.length + (bigWords seg).sum)))

/-! ### Packets that are built -/

/-- An IPv4 header of 20 bytes; the fields that are not set are zero. -/
def ipv4Hdr (total : ℕ) (protocol : UInt8) (srcIp dstIp : Ip) (checksum : UInt16) : Bytes :=
  [0x45, 0] ++ be16 (UInt16.ofNat total) ++ [0, 0, 0, 0] ++ [64, protocol] ++ le16 checksum ++ srcIp.bytes ++ dstIp.bytes

/-- The header with its checksum, in front of a payload. -/
def ipv4Packet (protocol : UInt8) (srcIp dstIp : Ip) (payload : Bytes) : Bytes :=
  let hdr := ipv4Hdr (20 + payload.length) protocol srcIp dstIp
  hdr (ipChecksum (hdr 0)) ++ payload

def icmpHdr (type code : UInt8) (checksum : UInt16) : Bytes := [type, code] ++ le16 checksum

/-- The message with its checksum; `rest` begins at the identifier. -/
def icmpMessage (type code : UInt8) (rest : Bytes) : Bytes :=
  icmpHdr type code (ipChecksum (icmpHdr type code 0 ++ rest)) ++ rest

def udpHdr (srcPort dstPort : UInt16) (dataLen : ℕ) : Bytes :=
  be16 srcPort ++ be16 dstPort ++ be16 (UInt16.ofNat (8 + dataLen)) ++ [0, 0]

def NET_TCP_BUF_SIZE : ℕ := 4096

/-- A header of 20 bytes. -/
def tcpHdr (srcPort dstPort : UInt16) (seq ack : UInt32) (flags : UInt8) (checksum : UInt16) : Bytes :=
  be16 srcPort ++ be16 dstPort ++ be32 seq ++ be32 ack ++ [0x50, flags] ++ be16 (UInt16.ofNat NET_TCP_BUF_SIZE) ++
    le16 checksum ++ [0, 0]

def tcpSegment (srcIp dstIp : Ip) (srcPort dstPort : UInt16) (seq ack : UInt32) (flags : UInt8) (data : Bytes) : Bytes :=
  let hdr := tcpHdr srcPort dstPort seq ack flags
  hdr (tcpChecksum srcIp dstIp (hdr 0 ++ data)) ++ data

def arpPkt (opcode : UInt16) (senderMac : Mac) (senderIp : Ip) (targetMac : Mac) (targetIp : Ip) : Bytes :=
  be16 1 ++ be16 0x0800 ++ [6, 4] ++ be16 opcode ++ senderMac.bytes ++ senderIp.bytes ++ targetMac.bytes ++ targetIp.bytes

end Tg11Kernel.Net
