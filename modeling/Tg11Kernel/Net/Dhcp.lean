import Tg11Kernel.Net.Receiver
import Tg11Kernel.Net.Resolver

/-! The DHCP client. It broadcasts a DISCOVER, takes the first datagram for its port for the
OFFER, broadcasts a REQUEST, and takes the next one for the ACK. Of a reply it looks at the
operation, the transaction and the type of the message; who the reply is for and who has sent
it are left to the network. -/

namespace Tg11Kernel.Net

open Lib Exec

/-! ### Messages -/

def DHCP_XID : UInt32 := 0x54473131

def DHCP_MAGIC : Bytes := [99, 130, 83, 99]

/-- `struct dhcp_pkt` of a client: the fields, the cookie and the options. -/
def dhcpPkt (xid : UInt32) (mac : Mac) (options : Bytes) : Bytes :=
  [1, 1, 6, 0] ++ be32 xid ++ be16 0 ++ be16 0x8000 ++ List.replicate 16 0 ++ mac.bytes ++ List.replicate (10 + 64 + 128) 0 ++
    DHCP_MAGIC ++ options ++ List.replicate (312 - options.length) 0

def dhcpBuildDiscover (xid : UInt32) (mac : Mac) : Bytes := dhcpPkt xid mac [53, 1, 1, 55, 3, 1, 3, 6, 255]

def dhcpBuildRequest (xid : UInt32) (mac : Mac) (serverIp offeredIp : Ip) : Bytes :=
  dhcpPkt xid mac ([53, 1, 3, 50, 4] ++ offeredIp.bytes ++ [54, 4] ++ serverIp.bytes ++ [55, 3, 1, 3, 6, 255])

def noOptions : DhcpOptions := ⟨zeroIp, zeroIp, zeroIp, zeroIp⟩

/-- The checks of a reply of the type `msgType`. The answer is its `yiaddr`, if it passes. -/
def takeReply (msgType : UInt8) (reply : Bytes) : Exec DhcpOptions (Option Ip) :=
  if reply.length < 240 then pure none
  else do
    let op ← ofOption (u8 reply 0)
    if op ≠ 2 then pure none
    else do
      let rxid ← ofOption (u32 reply 4)
      if rxid ≠ DHCP_XID then pure none
      else do
        let yiaddr ← ofOption (ipAt reply 16)
        let msg ← dhcpParseOptions (reply.length + 1) (reply.drop 240)
        pure (if msg ≠ msgType then none else some yiaddr)

/-! ### The client -/

/-- A program over the options, from cleared ones on. -/
def onOptions {α : Type} (m : Exec DhcpOptions α) : Exec Stack (α × DhcpOptions) := fun s =>
  match m noOptions with
  | (.ok a, opts) => (.ok (a, opts), s)
  | (.fail, _) => (.fail, s)
  | (.hang, _) => (.hang, s)

/-- A broadcast to the servers and the datagram that is taken for the reply; there is no answer
when the broadcast fails. -/
def askServers (n : ℕ) (data : Bytes) : Exec Stack (Option Bytes) := do
  let ok ← netUdpSendBroadcast 68 67 data
  if ok = true then do
    let reply ← udpRecvWait n 68 600 500
    pure (some reply)
  else pure none

/-- An address that was given, or the one before. -/
def orKeep (ip old : Ip) : Ip := if ip = zeroIp then old else ip

def NetConfig.leased (cfg : NetConfig) (ip : Ip) (opts : DhcpOptions) : NetConfig :=
  { cfg with
    ip := ip
    netmask := orKeep opts.subnet cfg.netmask
    gateway := orKeep opts.router cfg.gateway
    dns := orKeep opts.dns cfg.dns }

/-- From the REQUEST on. -/
def requestLease (n : ℕ) (offeredIp serverIp : Ip) : Exec Stack Bool := do
  let mac ← gets (·.cfg.mac)
  match ← askServers n (dhcpBuildRequest DHCP_XID mac serverIp offeredIp) with
  | none => pure false
  | some ack => do
    match ← onOptions (takeReply 5 ack) with
    | (none, _) => pure false
    | (some ip, opts) => do
      modify fun s => { s with cfg := s.cfg.leased ip opts }
      pure true

/-- The answer is whether there is a lease. -/
def netDhcpRequest (n : ℕ) : Exec Stack Bool := do
  let mac ← gets (·.cfg.mac)
  match ← askServers n (dhcpBuildDiscover DHCP_XID mac) with
  | none => pure false
  | some offer => do
    match ← onOptions (takeReply 2 offer) with
    | (none, _) => pure false
    | (some offeredIp, opts) => requestLease n offeredIp opts.serverIp

/-! ### Exchanges -/

/-- A reply of the type to our transaction, with its `yiaddr` and its options. -/
structure IsReply (msgType : UInt8) (reply : Bytes) (ip : Ip) (opts : DhcpOptions) : Prop where
  long : 240 ≤ reply.length
  op : u8 reply 0 = some 2
  xid : u32 reply 4 = some DHCP_XID
  yiaddr : ipAt reply 16 = some ip
  options : dhcpParseOptions (reply.length + 1) (reply.drop 240) noOptions = (.ok msgType, opts)

/-- The reply that is taken for the OFFER. -/
def TakesOffer (n : ℕ) (s : Stack) (offer : Bytes) (s' : Stack) : Prop :=
  askServers n (dhcpBuildDiscover DHCP_XID s.cfg.mac) s = (.ok (some offer), s')

/-- The reply that is taken for the ACK when an address was offered. -/
def TakesAck (n : ℕ) (s : Stack) (offeredIp serverIp : Ip) (ack : Bytes) (s' : Stack) : Prop :=
  askServers n (dhcpBuildRequest DHCP_XID s.cfg.mac serverIp offeredIp) s = (.ok (some ack), s')

/-- The reply is the payload of a datagram for the client that arrived in the meantime. -/
def Arrived (s s' : Stack) (reply : Bytes) : Prop :=
  ∃ frame ∈ handledIn s s', ∃ d src, datagram s.cfg.ip frame = some (d, src) ∧ d.dstPort = 68 ∧
    reply = (d.payload frame).take 600

/-- The reply is a message of DHCP for this host. -/
structure Addressed (mac : Mac) (reply : Bytes) : Prop where
  cookie : bytesAt reply 236 4 = some DHCP_MAGIC
  chaddr : macAt reply 28 = some mac

variable {opts : DhcpOptions} {s t : Stack} {n : ℕ}

theorem takeReply_iff {msgType : UInt8} {reply : Bytes} {ip : Ip} :
    takeReply msgType reply noOptions = (.ok (some ip), opts) ↔ IsReply msgType reply ip opts := by
  unfold takeReply
  constructor
  · intro h
    split_ifs at h with hlong
    · simp at h
    obtain ⟨op, t₁, hread, h⟩ := bind_ok_iff.1 h
    obtain ⟨hop, rfl⟩ := ofOption_ok_iff.1 hread
    split_ifs at h with hreply
    · simp at h
    obtain ⟨rxid, t₂, hread', h⟩ := bind_ok_iff.1 h
    obtain ⟨hxid, rfl⟩ := ofOption_ok_iff.1 hread'
    split_ifs at h with hours
    · simp at h
    obtain ⟨yiaddr, t₃, hread'', h⟩ := bind_ok_iff.1 h
    obtain ⟨hyiaddr, rfl⟩ := ofOption_ok_iff.1 hread''
    obtain ⟨msg, t₄, hmsg, h⟩ := bind_ok_iff.1 h
    split_ifs at h with htype
    · simp at h
    · obtain ⟨rfl, rfl⟩ : yiaddr = ip ∧ t₄ = opts := by simpa using h
      obtain rfl := not_not.1 hreply
      obtain rfl := not_not.1 hours
      obtain rfl := not_not.1 htype
      exact ⟨by omega, hop, hxid, hyiaddr, hmsg⟩
  · rintro ⟨hlong, hop, hxid, hyiaddr, hoptions⟩
    rw [if_neg (by omega), hop, hxid, hyiaddr]
    simp only [ofOption_some, pure_bind_eq, ne_eq, not_true_eq_false, if_false]
    rw [bind_ok hoptions, if_neg (by simp)]
    rfl

theorem onOptions_ok_iff {α : Type} {m : Exec DhcpOptions α} {a : α} :
    onOptions m s = (.ok (a, opts), t) ↔ m noOptions = (.ok a, opts) ∧ t = s := by
  unfold onOptions
  rcases m noOptions with ⟨b | _ | _, o⟩
  · simp only [Prod.mk.injEq, Outcome.ok.injEq]
    tauto
  · simp
  · simp

/-- The call is over with a lease exactly after an exchange of four messages. -/
theorem netDhcpRequest_true : netDhcpRequest n s = (.ok true, t) ↔
      ∃ offer s₁ offeredIp o, TakesOffer n s offer s₁ ∧ IsReply 2 offer offeredIp o ∧
        ∃ ack s₂ ip opts, TakesAck n s₁ offeredIp o.serverIp ack s₂ ∧ IsReply 5 ack ip opts ∧
          t = { s₂ with cfg := s₂.cfg.leased ip opts } := by
  have hlease : ∀ offeredIp serverIp s₁, requestLease n offeredIp serverIp s₁ = (.ok true, t) ↔
      ∃ ack s₂ ip opts, TakesAck n s₁ offeredIp serverIp ack s₂ ∧ IsReply 5 ack ip opts ∧
        t = { s₂ with cfg := s₂.cfg.leased ip opts } := by
    intro offeredIp serverIp s₁
    constructor
    · intro h
      obtain ⟨mac, s', hmac, h⟩ := bind_ok_iff.1 h
      obtain ⟨rfl, rfl⟩ : s₁.cfg.mac = mac ∧ s₁ = s' := by simpa [gets] using hmac
      obtain ⟨answer, s₂, hask, h⟩ := bind_ok_iff.1 h
      cases answer with
      | none => simp at h
      | some ack =>
        obtain ⟨⟨yiaddr, opts⟩, s₃, htake, h⟩ := bind_ok_iff.1 h
        obtain ⟨htook, rfl⟩ := onOptions_ok_iff.1 htake
        cases yiaddr with
        | none => simp at h
        | some ip =>
          have ht : t = { s₃ with cfg := s₃.cfg.leased ip opts } := (congrArg Prod.snd h).symm
          exact ⟨ack, s₃, ip, opts, hask, takeReply_iff.1 htook, ht⟩
    · rintro ⟨ack, s₂, ip, opts, hask, hreply, rfl⟩
      refine bind_ok_iff.2 ⟨_, s₁, rfl, bind_ok_iff.2 ⟨some ack, s₂, hask, ?_⟩⟩
      exact bind_ok_iff.2 ⟨(some ip, opts), s₂, onOptions_ok_iff.2 ⟨takeReply_iff.2 hreply, rfl⟩, rfl⟩
  constructor
  · intro h
    obtain ⟨mac, s', hmac, h⟩ := bind_ok_iff.1 h
    obtain ⟨rfl, rfl⟩ : s.cfg.mac = mac ∧ s = s' := by simpa [gets] using hmac
    obtain ⟨answer, s₁, hask, h⟩ := bind_ok_iff.1 h
    cases answer with
    | none => simp at h
    | some offer =>
      obtain ⟨⟨yiaddr, o⟩, s₂, htake, h⟩ := bind_ok_iff.1 h
      obtain ⟨htook, rfl⟩ := onOptions_ok_iff.1 htake
      cases yiaddr with
      | none => simp at h
      | some offeredIp => exact ⟨offer, s₂, offeredIp, o, hask, takeReply_iff.1 htook, (hlease _ _ _).1 h⟩
  · rintro ⟨offer, s₁, offeredIp, o, hask, hreply, hrest⟩
    refine bind_ok_iff.2 ⟨_, s, rfl, bind_ok_iff.2 ⟨some offer, s₁, hask, ?_⟩⟩
    exact bind_ok_iff.2 ⟨(some offeredIp, o), s₁, onOptions_ok_iff.2 ⟨takeReply_iff.2 hreply, rfl⟩, (hlease _ _ _).2 hrest⟩

/-! ### The configuration -/

/-- A move that leaves the configuration alone. -/
def SameCfg (s t : Stack) : Prop := t.cfg = s.cfg

theorem sameCfg_idle : Idle SameCfg := fun s t h => congrArg Prod.fst h.watched

theorem walks_poll_sameCfg (n : ℕ) : Walks SameCfg (netPoll n) := by
  apply (walks_netPoll n).mono
  intro s t h
  obtain ⟨frames, hpassed⟩ := h.passed
  exact hpassed.cfg

theorem walks_askServers (n : ℕ) (data : Bytes) : Walks SameCfg (askServers n data) := by
  apply (walks_netUdpSendBroadcast sameCfg_idle _ _ _).bind
  intro ok
  split_ifs
  · refine Walks.bind ?_ fun reply => Walks.pure
    apply Walks.read_bind
    intro now
    refine Walks.modify_bind (fun s => rfl) ?_
    apply (walks_waitUntil sameCfg_idle (walks_poll_sameCfg n) _ _ n).bind
    intro received
    apply Walks.read_bind
    intro data
    exact Walks.modify_bind (fun s => rfl) Walks.pure
  · exact Walks.pure

theorem cfg_of_walks {α : Type} {m : Exec Stack α} (h : Walks SameCfg m) (s : Stack) : (m s).2.cfg = s.cfg :=
  @invariant_of_moves _ SameCfg (fun t => t.cfg = s.cfg) (fun _ _ ht hmove => Eq.trans hmove ht) _ _ (h s) rfl

theorem askServers_cfg {data : Bytes} {r : Outcome (Option Bytes)} (h : askServers n data s = (r, t)) :
    t.cfg = s.cfg := by
  have hcfg := cfg_of_walks (walks_askServers n data) s
  rwa [h] at hcfg

/-- A call without a lease leaves the configuration alone. -/
theorem netDhcpRequest_false (h : netDhcpRequest n s = (.ok false, t)) : t.cfg = s.cfg := by
  obtain ⟨mac, s', hmac, h⟩ := bind_ok_iff.1 h
  obtain ⟨rfl, rfl⟩ : s.cfg.mac = mac ∧ s = s' := by simpa [gets] using hmac
  obtain ⟨answer, s₁, hask, h⟩ := bind_ok_iff.1 h
  have hcfg := askServers_cfg hask
  cases answer with
  | none =>
    obtain rfl : s₁ = t := congrArg Prod.snd h
    exact hcfg
  | some offer =>
    obtain ⟨⟨yiaddr, o⟩, s₂, htake, h⟩ := bind_ok_iff.1 h
    obtain ⟨-, rfl⟩ := onOptions_ok_iff.1 htake
    cases yiaddr with
    | none =>
      obtain rfl : s₂ = t := congrArg Prod.snd h
      exact hcfg
    | some offeredIp =>
      obtain ⟨mac, s', hmac, h⟩ := bind_ok_iff.1 h
      obtain ⟨rfl, rfl⟩ : s₂.cfg.mac = mac ∧ s₂ = s' := by simpa [gets] using hmac
      obtain ⟨answer, s₃, hask', h⟩ := bind_ok_iff.1 h
      have hcfg' := (askServers_cfg hask').trans hcfg
      cases answer with
      | none =>
        obtain rfl : s₃ = t := congrArg Prod.snd h
        exact hcfg'
      | some ack =>
        obtain ⟨⟨yiaddr, opts⟩, s₄, htake, h⟩ := bind_ok_iff.1 h
        obtain ⟨-, rfl⟩ := onOptions_ok_iff.1 htake
        cases yiaddr with
        | none =>
          obtain rfl : s₄ = t := congrArg Prod.snd h
          exact hcfg'
        | some ip =>
          have hok : (Outcome.ok true : Outcome Bool) = .ok false := congrArg Prod.fst h
          simp at hok

/-! ### The lease -/

/-- A lease is an ACK for this host by the server whose offer was requested, and the configuration
is the one before with what the ACK gives. -/
structure LeaseLaw (n : ℕ) (s : Stack) : Prop where
  lease : ∀ t, netDhcpRequest n s = (.ok true, t) → ∃ offer s₁ offeredIp o ack s₂ ip opts,
    TakesOffer n s offer s₁ ∧ IsReply 2 offer offeredIp o ∧ TakesAck n s₁ offeredIp o.serverIp ack s₂ ∧ IsReply 5 ack ip opts ∧
      Arrived s s₁ offer ∧ Arrived s₁ s₂ ack ∧ Addressed s.cfg.mac ack ∧ opts.serverIp = o.serverIp ∧
      t.cfg = s.cfg.leased ip opts
  failed : ∀ t, netDhcpRequest n s = (.ok false, t) → t.cfg = s.cfg

/-- The replies that pass the client's checks are datagrams that arrived, and the ACK is for this
host and by the server of the OFFER. -/
def AnsweredProperly (n : ℕ) (s : Stack) : Prop :=
  ∀ offer s₁ offeredIp o ack s₂ ip opts, TakesOffer n s offer s₁ → IsReply 2 offer offeredIp o →
    TakesAck n s₁ offeredIp o.serverIp ack s₂ → IsReply 5 ack ip opts →
    Arrived s s₁ offer ∧ Arrived s₁ s₂ ack ∧ Addressed s.cfg.mac ack ∧ opts.serverIp = o.serverIp

/-- A reply without the cookie, for the client with the address zero. -/
def strayReply (msgType : UInt8) : Bytes :=
  [2, 1, 6, 0] ++ be32 DHCP_XID ++ List.replicate 8 0 ++ [10, 0, 2, 77] ++ List.replicate 220 0 ++ [53, 1, msgType, 255]

def strayServer : Stack :=
  netInit ⟨0x52, 0x54, 0, 0x12, 0x34, 0x56⟩ 0 [⟨1, [serverFrame (strayReply 2)]⟩, ⟨1, [serverFrame (strayReply 5)]⟩]

def strayOffered : Stack := (askServers 2 (dhcpBuildDiscover DHCP_XID strayServer.cfg.mac) strayServer).2

deriving instance DecidableEq for DhcpOptions

theorem isReply_strayReply (msgType : UInt8) (h : msgType = 2 ∨ msgType = 5) :
    IsReply msgType (strayReply msgType) ⟨10, 0, 2, 77⟩ noOptions := by
  rcases h with rfl | rfl
  · exact ⟨by decide +kernel, by decide +kernel, by decide +kernel, by decide +kernel, by decide +kernel⟩
  · exact ⟨by decide +kernel, by decide +kernel, by decide +kernel, by decide +kernel, by decide +kernel⟩

theorem run_eq {α : Type} {m : Exec Stack α} {o : Outcome α} (h : (m s).1 = o) : m s = (o, (m s).2) := by
  rw [← h]

end Tg11Kernel.Net
