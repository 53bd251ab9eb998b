import Tg11Kernel.Net.Wire
import Tg11Kernel.Lib.Exec

/-! DHCP options and DNS responses. Both parsers walk a buffer by lengths that the buffer
holds. A read at or behind its length is a failure; the walks run on fuel. Offsets are
natural numbers: an offset is at most the length of the buffer and `2 ^ 19` more, so none
wraps in a buffer that fits into memory. -/

namespace Tg11Kernel.Net

open Lib Exec

/-! ### DHCP -/

/-- What `dhcp_parse_options` fills in. -/
structure DhcpOptions where
  serverIp : Ip
  subnet : Ip
  router : Ip
  dns : Ip

def DhcpOptions.set (opt : UInt8) (ip : Ip) (o : DhcpOptions) : DhcpOptions :=
  if opt = 54 then { o with serverIp := ip }
  else if opt = 1 then { o with subnet := ip }
  else if opt = 3 then { o with router := ip }
  else if opt = 6 then { o with dns := ip }
  else o

def isAddressOption (opt : UInt8) : Bool := opt = 54 || opt = 1 || opt = 3 || opt = 6

/-- One option of `len` bytes at `i`; the answer is the message type that is known then. -/
def readOption (opts : Bytes) (opt : UInt8) (i len : ℕ) (msgType : UInt8) : Exec DhcpOptions UInt8 :=
  if opt = 53 then
    if len ≥ 1 then ofOption (u8 opts i) else pure msgType
  else if isAddressOption opt = true ∧ len ≥ 4 then do
    let ip ← ofOption (ipAt opts i)
    modify (DhcpOptions.set opt ip)
    pure msgType
  else pure msgType

/-- The loop from offset `i` on. -/
def dhcpOptions (opts : Bytes) : ℕ → ℕ → UInt8 → Exec DhcpOptions UInt8
  | 0, _, _ => hang
  | fuel + 1, i, msgType =>
    if i < opts.length then do
      let opt ← ofOption (u8 opts i)
      if opt = 255 then pure msgType
      else if opt = 0 then dhcpOptions opts fuel (i + 1) msgType
      else if i + 1 ≥ opts.length then pure msgType
      else do
        let len ← ofOption (u8 opts (i + 1))
        if i + 2 + len.toNat > opts.length then pure msgType
        else do
          let msgType ← readOption opts opt (i + 2) len.toNat msgType
          dhcpOptions opts fuel (i + 2 + len.toNat) msgType
    else pure msgType

/-- The DHCP message type, or 0. -/
def dhcpParseOptions (fuel : ℕ) (opts : Bytes) : Exec DhcpOptions UInt8 := dhcpOptions opts fuel 0 0

/-! ### DNS -/

/-- A program that has no state. -/
abbrev Parser := Exec Unit

/-- Skips a name: labels up to an empty one or a pointer. -/
def skipName (buf : Bytes) : ℕ → ℕ → Parser ℕ
  | 0, _ => hang
  | fuel + 1, pos =>
    if pos < buf.length then do
      let b ← ofOption (u8 buf pos)
      if b = 0 then pure (pos + 1)
      else if b &&& 0xC0 = 0xC0 then pure (pos + 2)
      else skipName buf fuel (pos + (1 + b.toNat))
    else pure pos

/-- Each question has a name, a type and a class. -/
def skipQuestions (buf : Bytes) (fuel : ℕ) : ℕ → ℕ → Parser ℕ
  | 0, pos => pure pos
  | count + 1, pos => do
    let pos ← skipName buf fuel pos
    skipQuestions buf fuel count (pos + 4)

/-- The first A record of so many records. -/
def findAddress (buf : Bytes) (fuel : ℕ) : ℕ → ℕ → Parser (Option Ip)
  | 0, _ => pure none
  | count + 1, pos =>
    if pos < buf.length then do
      let pos ← skipName buf fuel pos
      if pos + 10 > buf.length then pure none
      else do
        let rtype ← ofOption (u16 buf pos)
        let rclass ← ofOption (u16 buf (pos + 2))
        let rdlen ← ofOption (u16 buf (pos + 8))
        if rtype = 1 ∧ rclass = 1 ∧ rdlen = 4 ∧ pos + 10 + 4 ≤ buf.length then do
          let ip ← ofOption (ipAt buf (pos + 10))
          pure (some ip)
        else findAddress buf fuel count (pos + 10 + rdlen.toNat)
    else pure none

/-- The address of the response to the query `txid`. -/
def dnsParseResponse (fuel : ℕ) (buf : Bytes) (txid : UInt16) : Parser (Option Ip) :=
  if buf.length < 12 then pure none
  else do
    let respId ← ofOption (u16 buf 0)
    if respId ≠ txid then pure none
    else do
      let flags ← ofOption (u16 buf 2)
      if flags &&& 0x8000 = 0 then pure none
      else if flags &&& 0x000F ≠ 0 then pure none
      else do
        let qdcount ← ofOption (u16 buf 4)
        let ancount ← ofOption (u16 buf 6)
        let pos ← skipQuestions buf fuel qdcount.toNat 12
        findAddress buf fuel ancount.toNat pos

end Tg11Kernel.Net
