import Tg11Kernel.Net.Runs

/-! One connection on its own. A move of the stack changes a connection and its history in
one of a few ways or not at all, so that what holds for a connection in all runs is an
invariant of these. -/

namespace Tg11Kernel.Net

open Lib Exec Relation

/-- A connection with its history. -/
structure ConnView where
  isn : UInt32
  events : List TcpEvent
  conn : TcpConn

def Stack.view (s : Stack) (i : Conn) : ConnView := ⟨(s.history i).isn, s.events i, s.conns i⟩

namespace ConnView

def log (v : ConnView) (e : TcpEvent) : ConnView := { v with events := e :: v.events }

def put (v : ConnView) (c : TcpConn) : ConnView := { v with conn := c }

def transmit (v : ConnView) (flags : UInt8) (len : ℕ) (d : UInt32) : ConnView :=
  (v.log (.sent flags v.conn.seq len)).put { v.conn with seq := v.conn.seq + d }

end ConnView

/-- What a poll does to a connection. -/
inductive ConnPoll : ConnView → ConnView → Prop
  | same (v : ConnView) : ConnPoll v v
  | arrived (v : ConnView) (seg : Segment) (hactive : v.conn.active = true) :
    ConnPoll v ((v.log (.arrived v.conn seg)).put (v.conn.react seg))
  | acked (v : ConnView) : ConnPoll v (v.log (.sent TCP_ACK v.conn.seq 0))
  | unsent (v : ConnView) : ConnPoll v (v.log (.unsent TCP_ACK))
  | finished (v : ConnView) (c : TcpConn) (seg : Segment) (hseg : .arrived c seg ∈ v.events) (hfin : PeerFin c seg)
    (hsettled : v.conn.Settled) : ConnPoll v (v.put (v.conn.finish seg))
  | shut (v : ConnView) (c : TcpConn) (seg : Segment) (hseg : .arrived c seg ∈ v.events) (hlast : LastFin c seg) :
    ConnPoll v (v.put v.conn.shut)

abbrev ConnPolls := ReflTransGen ConnPoll

/-- A connection that was opened, on the way to its SYN. -/
structure ConnOpening (u : ConnView) : Prop where
  opens : ∃ dstIp localPort dstPort isn, ConnPolls ⟨isn, [], freshConn dstIp localPort dstPort isn⟩ u

/-- A connection that is closed, on the way to its FIN. -/
structure ConnClosing (v : ConnView) (state : TcpState) (u : ConnView) : Prop where
  closes : ClosesAs v.conn state
  polls : ConnPolls (v.put { v.conn with state := state }) u

/-- What the stack does to a connection. -/
inductive ConnMove : ConnView → ConnView → Prop
  | poll (v w : ConnView) (h : ConnPoll v w) : ConnMove v w
  | opened (v u : ConnView) (h : ConnOpening u) : ConnMove v u
  | synSent (v u : ConnView) (h : ConnOpening u) : ConnMove v (u.transmit TCP_SYN 0 1)
  | synUnsent (v u : ConnView) (h : ConnOpening u) : ConnMove v ((u.log (.unsent TCP_SYN)).put { u.conn with active := false })
  | chunk (v : ConnView) (len : ℕ) (hstate : v.conn.state ≠ .synSent) :
    ConnMove v (v.transmit (TCP_ACK ||| TCP_PSH) len (UInt32.ofNat len))
  | chunkUnsent (v : ConnView) : ConnMove v (v.log (.unsent (TCP_ACK ||| TCP_PSH)))
  | closing (v : ConnView) (state : TcpState) (u : ConnView) (h : ConnClosing v state u) : ConnMove v u
  | finSent (v : ConnView) (state : TcpState) (u : ConnView) (h : ConnClosing v state u) :
    ConnMove v (u.transmit (TCP_FIN ||| TCP_ACK) 0 1)
  | finUnsent (v : ConnView) (state : TcpState) (u : ConnView) (h : ConnClosing v state u) :
    ConnMove v ((u.log (.unsent (TCP_FIN ||| TCP_ACK))).put { u.conn with seq := u.conn.seq + 1 })
  | gaveUp (v : ConnView) : ConnMove v ((v.log (.gaveUp v.conn)).put v.conn.shut)
  | read (v : ConnView) (k : ℕ) :
    ConnMove v ((v.log (.returned (v.conn.rxBuf.take k))).put { v.conn with rxBuf := v.conn.rxBuf.drop k })

abbrev ConnMoves := ReflTransGen ConnMove

/-! ### Moves of the stack, seen from one connection -/

section Views

variable {s t : Stack} {i j : Conn}

theorem view_events : (s.view i).events = s.events i := rfl

theorem view_setConn_self (c : TcpConn) : (s.setConn i c).view i = (s.view i).put c := by
  unfold Stack.view ConnView.put
  rw [setConn_conns_self]
  rfl

theorem view_setConn_ne (c : TcpConn) (h : i ≠ j) : (s.setConn j c).view i = s.view i := by
  unfold Stack.view
  rw [setConn_conns_ne h]
  rfl

theorem view_log_self (e : TcpEvent) : (s.log i e).view i = (s.view i).log e := by
  unfold Stack.view ConnView.log
  rw [log_events_self, log_isn, log_conns]

theorem view_log_ne (e : TcpEvent) (h : i ≠ j) : (s.log j e).view i = s.view i := by
  unfold Stack.view
  rw [log_events_ne h, log_isn, log_conns]

theorem view_transmit_self (flags : UInt8) (len : ℕ) (d : UInt32) : (s.transmit i flags len d).view i = (s.view i).transmit flags len d := by
  unfold Stack.transmit ConnView.transmit
  rw [view_setConn_self, view_log_self]
  rfl

theorem view_transmit_ne (flags : UInt8) (len : ℕ) (d : UInt32) (h : i ≠ j) : (s.transmit j flags len d).view i = s.view i := by
  unfold Stack.transmit
  rw [view_setConn_ne _ h, view_log_ne _ h]

theorem PollMove.view (h : PollMove s t) (i : Conn) : ConnPoll (s.view i) (t.view i) := by
  cases h with
  | other _ h =>
    simp only [Stack.watched, Prod.mk.injEq] at h
    have hview : t.view i = s.view i := by
      unfold Stack.view Stack.events
      rw [h.2.2.2.2.1, h.2.2.2.2.2]
    rw [hview]
    exact .same _
  | received frame rx => exact .same _
  | arrived j seg hactive =>
    by_cases hij : i = j
    · subst hij
      rw [view_setConn_self, view_log_self]
      exact .arrived _ seg hactive
    · rw [view_setConn_ne _ hij, view_log_ne _ hij]
      exact .same _
  | acked j =>
    by_cases hij : i = j
    · subst hij
      rw [view_log_self]
      exact .acked _
    · rw [view_log_ne _ hij]
      exact .same _
  | unsent j =>
    by_cases hij : i = j
    · subst hij
      rw [view_log_self]
      exact .unsent _
    · rw [view_log_ne _ hij]
      exact .same _
  | finished j c seg hseg hfin hsettled =>
    by_cases hij : i = j
    · subst hij
      rw [view_setConn_self]
      exact .finished _ c seg hseg hfin hsettled
    · rw [view_setConn_ne _ hij]
      exact .same _
  | shut j c seg hseg hlast =>
    by_cases hij : i = j
    · subst hij
      rw [view_setConn_self]
      exact .shut _ c seg hseg hlast
    · rw [view_setConn_ne _ hij]
      exact .same _

theorem PollMoves.view (h : PollMoves s t) (i : Conn) : ConnPolls (s.view i) (t.view i) := by
  induction h with
  | refl => exact .refl
  | tail _ hmove ih => exact ih.tail (hmove.view i)

theorem polls_moves {v w : ConnView} (h : ConnPolls v w) : ConnMoves v w := ReflTransGen.mono (fun v w => .poll v w) _ _ h

variable {dstIp : Ip} {dstPort : UInt16} {state : TcpState}

theorem Opening.view (h : Opening s i dstIp dstPort t) : ConnOpening (t.view i) := by
  have hfresh : (openConn i dstIp dstPort s).view i =
      ⟨1000 + s.ticks.toUInt32, [], freshConn dstIp s.tcpNextPort dstPort (1000 + s.ticks.toUInt32)⟩ := by
    unfold Stack.view Stack.events openConn
    simp
  have hpolls := h.moves.view i
  rw [hfresh] at hpolls
  exact ⟨_, _, _, _, hpolls⟩

theorem Opening.view_ne (h : Opening s j dstIp dstPort t) (hij : i ≠ j) :
    ConnMoves (s.view i) (t.view i) := by
  have hother : (openConn j dstIp dstPort s).view i = s.view i := by
    unfold Stack.view Stack.events openConn
    simp [hij]
  have hpolls := h.moves.view i
  rw [hother] at hpolls
  exact polls_moves hpolls

theorem Closing.view (h : Closing s i state t) : ConnClosing (s.view i) state (t.view i) where
  closes := h.closes
  polls := by
    have hpolls := h.moves.view i
    rwa [view_setConn_self] at hpolls

theorem Closing.view_ne (h : Closing s j state t) (hij : i ≠ j) : ConnMoves (s.view i) (t.view i) := by
  have hpolls := h.moves.view i
  rw [view_setConn_ne _ hij] at hpolls
  exact polls_moves hpolls

theorem StackMove.view (h : StackMove s t) (i : Conn) : ConnMoves (s.view i) (t.view i) := by
  cases h with
  | poll _ h => exact .single (.poll _ _ (h.view i))
  | opened j dstIp dstPort _ h =>
    by_cases hij : i = j
    · subst hij
      exact .single (.opened _ _ h.view)
    · exact h.view_ne hij
  | synSent j dstIp dstPort u h =>
    by_cases hij : i = j
    · subst hij
      rw [view_transmit_self]
      exact .single (.synSent _ _ h.view)
    · rw [view_transmit_ne _ _ _ hij]
      exact h.view_ne hij
  | synUnsent j dstIp dstPort u h =>
    by_cases hij : i = j
    · subst hij
      rw [view_setConn_self, view_log_self]
      exact .single (.synUnsent _ _ h.view)
    · rw [view_setConn_ne _ hij, view_log_ne _ hij]
      exact h.view_ne hij
  | chunk j len hstate =>
    by_cases hij : i = j
    · subst hij
      rw [view_transmit_self]
      exact .single (.chunk _ len hstate)
    · rw [view_transmit_ne _ _ _ hij]
  | chunkUnsent j =>
    by_cases hij : i = j
    · subst hij
      rw [view_log_self]
      exact .single (.chunkUnsent _)
    · rw [view_log_ne _ hij]
  | closing j state _ h =>
    by_cases hij : i = j
    · subst hij
      exact .single (.closing _ state _ h.view)
    · exact h.view_ne hij
  | finSent j state u h =>
    by_cases hij : i = j
    · subst hij
      rw [view_transmit_self]
      exact .single (.finSent _ state _ h.view)
    · rw [view_transmit_ne _ _ _ hij]
      exact h.view_ne hij
  | finUnsent j state u h =>
    by_cases hij : i = j
    · subst hij
      rw [view_setConn_self, view_log_self]
      exact .single (.finUnsent _ state _ h.view)
    · rw [view_setConn_ne _ hij, view_log_ne _ hij]
      exact h.view_ne hij
  | gaveUp j =>
    by_cases hij : i = j
    · subst hij
      rw [view_setConn_self, view_log_self]
      exact .single (.gaveUp _)
    · rw [view_setConn_ne _ hij, view_log_ne _ hij]
  | read j k =>
    by_cases hij : i = j
    · subst hij
      rw [view_log_self, view_setConn_self]
      exact .single (.read _ k)
    · rw [view_log_ne _ hij, view_setConn_ne _ hij]
  | listens waiting port => exact .refl

theorem StackMoves.view (h : StackMoves s t) (i : Conn) : ConnMoves (s.view i) (t.view i) := by
  induction h with
  | refl => exact .refl
  | tail _ hmove ih => exact ih.trans (hmove.view i)

theorem runCalls_view (n : ℕ) (calls : List Call) (s : Stack) (i : Conn) : ConnMoves (s.view i) ((runCalls n calls s).2.view i) :=
  StackMoves.view (walks_runCalls n calls s) i

end Views

/-! ### Histories -/

/-- Every event of a history, the last one first, satisfies a condition that may look at the
events before it. -/
def Every (P : List TcpEvent → TcpEvent → Prop) : List TcpEvent → Prop
  | [] => True
  | e :: older => P older e ∧ Every P older

/-- A SYN-ACK reached the connection while it waited for one. -/
def Opened (events : List TcpEvent) : Prop :=
  ∃ c seg, .arrived c seg ∈ events ∧ c.state = .synSent ∧ has seg.flags TCP_RST ≠ true ∧ has seg.flags (TCP_SYN ||| TCP_ACK) = true

theorem not_opened_nil : ¬ Opened [] := fun ⟨_, _, hmem, _⟩ => List.not_mem_nil hmem

/-! ### A peer at the gateway -/

def firstConn : Conn := ⟨0, by decide⟩

def ourMac : Mac := ⟨0x52, 0x54, 0, 0x12, 0x34, 0x56⟩
def peerMac : Mac := ⟨0x52, 0x55, 10, 0, 2, 2⟩
def peerIp : Ip := ⟨10, 0, 2, 2⟩
def ourIp : Ip := ⟨10, 0, 2, 15⟩

/-- The answer to the question for its address. -/
def peerArp : Bytes := ourMac.bytes ++ peerMac.bytes ++ be16 ETH_TYPE_ARP ++ arpPkt 2 peerMac peerIp ourMac ourIp

/-- A segment from port 80 to the first port that a connection gets. -/
def peerFrame (seq ack : UInt32) (flags : UInt8) (data : Bytes) : Bytes :=
  ourMac.bytes ++ peerMac.bytes ++ be16 ETH_TYPE_IPV4 ++
    ipv4Packet IP_PROTO_TCP peerIp ourIp (tcpSegment peerIp ourIp 80 49152 seq ack flags data)

/-- Each poll finds one of the frames. -/
def hearing (frames : List Bytes) : List Arrival := frames.map fun f => ⟨1, [f]⟩

/-- The stack behind the calls, when it hears the frames. It is evaluated by the kernel only. -/
@[irreducible] def after (calls : List Call) (frames : List Bytes) : Stack :=
  (runCalls frames.length calls (netInit ourMac 0 (hearing frames))).2

theorem after_eq (calls : List Call) (frames : List Bytes) :
    after calls frames = (runCalls frames.length calls (netInit ourMac 0 (hearing frames))).2 := by
  unfold after
  rfl

end Tg11Kernel.Net
