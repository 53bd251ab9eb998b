import Tg11Kernel.Net.Datagram
import Tg11Kernel.Lib.Walk
import Mathlib.Data.List.Infix

/-! What a poll does, one move at a time: a frame is taken from the card, a segment changes
the connection that it reaches, an ACK goes out or does not, a FIN closes. Everything that
holds for all frames in all orders is proved along these moves. -/

namespace Tg11Kernel.Net

open Lib Exec Relation

/-! ### What a segment does to its connection -/

def TcpConn.shut (c : TcpConn) : TcpConn := { c with state := .closed, active := false }

/-- The connection after a segment in each state, before anything is sent. -/
def TcpConn.reactIn (c : TcpConn) (seg : Segment) : TcpState → TcpConn
  | .synSent =>
    if has seg.flags (TCP_SYN ||| TCP_ACK) = true then { c with ack := seg.seqNum + 1, seq := seg.ackNum, state := .established }
    else c
  | .established => if 0 < seg.data.length ∧ seg.seqNum = c.ack then c.accept seg else c
  | .finWait1 =>
    if has seg.flags TCP_ACK = true then
      if has seg.flags TCP_FIN = true then { c with seq := seg.ackNum, ack := seg.seqNum + 1, state := .timeWait }
      else { c with seq := seg.ackNum, state := .finWait2 }
    else c
  | .finWait2 => if has seg.flags TCP_FIN = true then { c with ack := seg.seqNum + 1 } else c
  | .lastAck => if has seg.flags TCP_ACK = true then c.shut else c
  | _ => c

def TcpConn.react (c : TcpConn) (seg : Segment) : TcpConn :=
  if has seg.flags TCP_RST = true then c.shut else c.reactIn seg c.state

/-- A FIN that ends the connection at once. -/
def LastFin (c : TcpConn) (seg : Segment) : Prop :=
  has seg.flags TCP_RST ≠ true ∧ has seg.flags TCP_FIN = true ∧
    (c.state = .finWait1 ∧ has seg.flags TCP_ACK = true ∨ c.state = .finWait2)

/-- A FIN that reaches an established connection. -/
def PeerFin (c : TcpConn) (seg : Segment) : Prop :=
  has seg.flags TCP_RST ≠ true ∧ has seg.flags TCP_FIN = true ∧ c.state = .established

/-- What an established connection can be later in the same poll. -/
def TcpConn.Settled (c : TcpConn) : Prop := c.active = false ∨ c.state = .established ∨ c.state = .closeWait

/-! ### Moves -/

namespace Stack

/-- What the moves are about. -/
def watched (s : Stack) : NetConfig × List Bytes × Bytes × UdpRx × (Conn → TcpConn) × (Conn → History) :=
  (s.cfg, s.handled, s.pktBuf, s.udpRx, s.conns, s.history)

/-- The slot has seen the frame. -/
def offered (s : Stack) (frame : Bytes) : Stack := { s with udpRx := s.udpRx.take s.cfg.ip frame }

def events (s : Stack) (i : Conn) : List TcpEvent := (s.history i).events

end Stack

inductive PollMove : Stack → Stack → Prop
  | other (s t : Stack) (h : t.watched = s.watched) : PollMove s t
  | received (s : Stack) (frame : Bytes) (rx : List Bytes) : PollMove s ((s.receive frame rx).offered frame)
  | arrived (s : Stack) (i : Conn) (seg : Segment) (hactive : (s.conns i).active = true) :
    PollMove s ((s.log i (.arrived (s.conns i) seg)).setConn i ((s.conns i).react seg))
  | acked (s : Stack) (i : Conn) : PollMove s (s.log i (.sent TCP_ACK (s.conns i).seq 0))
  | unsent (s : Stack) (i : Conn) : PollMove s (s.log i (.unsent TCP_ACK))
  | finished (s : Stack) (i : Conn) (c : TcpConn) (seg : Segment) (hseg : .arrived c seg ∈ s.events i) (hfin : PeerFin c seg)
    (hsettled : (s.conns i).Settled) : PollMove s (s.setConn i ((s.conns i).finish seg))
  | shut (s : Stack) (i : Conn) (c : TcpConn) (seg : Segment) (hseg : .arrived c seg ∈ s.events i) (hlast : LastFin c seg) :
    PollMove s (s.setConn i (s.conns i).shut)

abbrev PollMoves := ReflTransGen PollMove

/-- A change of nothing that the moves are about. -/
structure IdleStep (s t : Stack) : Prop where
  watched : t.watched = s.watched
  port : t.tcpNextPort = s.tcpNextPort
  world : t.world <:+ s.world

/-- A relation that has every such change. -/
def Idle (Move : Stack → Stack → Prop) : Prop := ∀ s t, IdleStep s t → Move s t

theorem PollMove.idle : Idle PollMove := fun s t h => .other s t h.watched

/-! ### Small facts -/

section Facts

variable {s : Stack} {i j : Conn} {c : TcpConn} {e : TcpEvent}

@[simp] theorem setConn_conns_self : (s.setConn i c).conns i = c := Function.update_self ..

@[simp] theorem setConn_conns_ne (h : j ≠ i) : (s.setConn i c).conns j = s.conns j := Function.update_of_ne h ..

@[simp] theorem setConn_events : (s.setConn i c).events j = s.events j := rfl

@[simp] theorem log_conns : (s.log i e).conns = s.conns := rfl

@[simp] theorem log_events_self : (s.log i e).events i = e :: s.events i := by
  unfold Stack.events Stack.log
  simp

@[simp] theorem log_events_ne (h : j ≠ i) : (s.log i e).events j = s.events j := by
  unfold Stack.events Stack.log
  simp [h]

@[simp] theorem log_isn : ((s.log i e).history j).isn = (s.history j).isn := by
  unfold Stack.log
  by_cases h : j = i
  · subst h
    simp
  · simp [h]

@[simp] theorem setConn_conns_eq : s.setConn i (s.conns i) = s := by
  unfold Stack.setConn
  rw [Function.update_eq_self]

theorem offered_none {frame : Bytes} (h : datagram s.cfg.ip frame = none) : s.offered frame = s := by
  unfold Stack.offered UdpRx.take
  rw [h]

/-- The events of a connection grow in a poll. -/
theorem PollMoves.events_suffix {t : Stack} (h : PollMoves s t) (i : Conn) : s.events i <:+ t.events i := by
  have hlog : ∀ (u : Stack) (j : Conn) (e : TcpEvent), u.events i <:+ (u.log j e).events i := by
    intro u j e
    by_cases hji : i = j
    · subst hji
      rw [log_events_self]
      exact List.suffix_cons _ _
    · rw [log_events_ne hji]
  induction h with
  | refl => exact List.suffix_rfl
  | tail _ hmove ih =>
    apply ih.trans
    cases hmove with
    | other _ h =>
      simp only [Stack.watched, Prod.mk.injEq] at h
      unfold Stack.events
      rw [h.2.2.2.2.2]
    | received frame rx => exact List.suffix_rfl
    | arrived j seg => exact hlog _ j _
    | acked j => exact hlog _ j _
    | unsent j => exact hlog _ j _
    | finished j c seg => exact List.suffix_rfl
    | shut j c seg => exact List.suffix_rfl

/-- A segment that has arrived stays so. -/
theorem PollMoves.mem_events {t : Stack} (h : PollMoves s t) (he : e ∈ s.events i) : e ∈ t.events i :=
  (h.events_suffix i).subset he

theorem Settled.react {seg : Segment} (h : c.Settled) (hactive : c.active = true) : (c.react seg).Settled := by
  unfold TcpConn.react
  split_ifs with hrst
  · exact .inl rfl
  · rcases h with h | h | h
    · rw [hactive] at h
      cases h
    · rw [h]
      simp only [TcpConn.reactIn]
      split_ifs
      · exact .inr (.inl h)
      · exact .inr (.inl h)
    · rw [h]
      exact .inr (.inr h)

/-- What a connection keeps while segments arrive and has when it is closed, it keeps in a poll. -/
theorem PollMoves.keeps {P : TcpConn → Prop} {t : Stack} (h : PollMoves s t)
    (hreact : ∀ (c : TcpConn) seg, c.active = true → P c → P (c.react seg)) (hfinish : ∀ (c : TcpConn) seg, P (c.finish seg)) (hshut : ∀ c : TcpConn, P c.shut)
    (hs : P (s.conns i)) : P (t.conns i) := by
  apply invariant_of_moves (I := fun u : Stack => P (u.conns i)) _ h hs
  intro u v hu hmove
  cases hmove with
  | other _ h =>
    simp only [Stack.watched, Prod.mk.injEq] at h
    rwa [h.2.2.2.2.1]
  | received frame rx => exact hu
  | arrived j seg hactive =>
    by_cases hji : i = j
    · subst hji
      rw [setConn_conns_self]
      exact hreact _ seg hactive hu
    · rwa [setConn_conns_ne hji, log_conns]
  | acked j => exact hu
  | unsent j => exact hu
  | finished j c seg =>
    by_cases hji : i = j
    · subst hji
      rw [setConn_conns_self]
      exact hfinish _ seg
    · rwa [setConn_conns_ne hji]
  | shut j c seg =>
    by_cases hji : i = j
    · subst hji
      rw [setConn_conns_self]
      exact hshut _
    · rwa [setConn_conns_ne hji]

/-- In a poll, an established connection stays so, or is closed by the other side or at once. -/
theorem PollMoves.settled {t : Stack} (h : PollMoves s t) (hs : (s.conns i).Settled) : (t.conns i).Settled :=
  h.keeps (fun _ _ hactive h => Settled.react h hactive) (fun _ _ => .inr (.inr rfl)) (fun _ => .inl rfl) hs

end Facts

/-! ### Sending -/

section Sending

variable {poll : Exec Stack Unit} {n : ℕ} {s : Stack}

theorem sendEth_cases (dst : Mac) (ethertype : UInt16) (payload : Bytes) (s : Stack) :
    ∃ ok frames, sendEth dst ethertype payload s = (.ok ok, { s with sent := frames }) := by
  unfold sendEth
  split_ifs
  · exact ⟨false, s.sent, rfl⟩
  · by_cases hup : s.up = true
    · exact ⟨true, _, if_pos hup⟩
    · exact ⟨false, s.sent, if_neg hup⟩

section Idle

variable {Move : Stack → Stack → Prop} (hidle : Idle Move)

include hidle

theorem walks_sendEth (dst : Mac) (ethertype : UInt16) (payload : Bytes) : Walks Move (sendEth dst ethertype payload) := by
  intro s
  obtain ⟨ok, frames, heq⟩ := sendEth_cases dst ethertype payload s
  unfold Leads
  rw [heq]
  exact .single (hidle _ _ ⟨rfl, rfl, List.suffix_rfl⟩)

theorem walks_whileBefore {deadline : UInt64} {body : Exec Stack Bool} (hbody : Walks Move body) :
    Walks Move (whileBefore deadline body) := by
  intro s
  unfold Leads whileBefore
  split_ifs
  · exact .single (hidle _ _ ⟨rfl, rfl, List.suffix_rfl⟩)
  · exact hbody s
  · exact .refl

theorem walks_waitUntil (hpoll : Walks Move poll) (deadline : UInt64) (done : Stack → Bool) (k : ℕ) :
    Walks Move (waitUntil poll deadline done k) := by
  induction k with
  | zero => exact walks_whileBefore hidle Walks.hang
  | succ k ih =>
    apply walks_whileBefore hidle
    apply hpoll.bind
    intro _
    apply Walks.read_bind
    intro stop
    split_ifs
    · exact Walks.pure
    · exact ih

theorem walks_resolveMac (hpoll : Walks Move poll) (dstIp : Ip) : Walks Move (resolveMac poll n dstIp) := by
  apply Walks.read_bind
  intro target
  apply Walks.read_bind
  intro mac
  cases mac with
  | some mac => exact Walks.pure
  | none =>
    show Walks Move (askMac poll n target)
    unfold askMac
    apply Walks.bind
    · exact Walks.read_bind fun cfg => (walks_sendEth hidle _ _ _).ignore
    · intro _
      apply Walks.read_bind
      intro now
      apply (walks_waitUntil hidle hpoll _ _ n).bind
      intro found
      split_ifs
      · exact Walks.gets
      · exact Walks.pure

end Idle

/-- How an attempt to send a segment ends: after moves of polls it is logged as sent or not. -/
inductive Attempt (i : Conn) (flags : UInt8) (len : ℕ) (s : Stack) : Outcome Bool × Stack → Prop
  | sent (u : Stack) (h : PollMoves s u) : Attempt i flags len s (.ok true, u.log i (.sent flags (u.conns i).seq len))
  | unsent (u : Stack) (h : PollMoves s u) : Attempt i flags len s (.ok false, u.log i (.unsent flags))
  | fail (u : Stack) (h : PollMoves s u) : Attempt i flags len s (.fail, u)
  | hang (u : Stack) (h : PollMoves s u) : Attempt i flags len s (.hang, u)

theorem Attempt.of_moves {i : Conn} {flags : UInt8} {len : ℕ} {u : Stack} {r : Outcome Bool × Stack} (h : PollMoves s u)
    (hr : Attempt i flags len u r) : Attempt i flags len s r := by
  cases hr with
  | sent v hv => exact .sent v (h.trans hv)
  | unsent v hv => exact .unsent v (h.trans hv)
  | fail v hv => exact .fail v (h.trans hv)
  | hang v hv => exact .hang v (h.trans hv)

theorem emitSegment_attempt (i : Conn) (flags : UInt8) (data : Bytes) (dstMac : Mac) (s : Stack) :
    Attempt i flags data.length s (emitSegment i flags data dstMac s) := by
  obtain ⟨ok, frames, heq⟩ := sendEth_cases dstMac ETH_TYPE_IPV4
    (ipv4Packet IP_PROTO_TCP s.cfg.ip (s.conns i).remoteIp (tcpSegment s.cfg.ip (s.conns i).remoteIp (s.conns i).localPort
      (s.conns i).remotePort (s.conns i).seq (s.conns i).ack flags data)) s
  have hemit : emitSegment i flags data dstMac s = logSend i flags (s.conns i).seq data.length ok { s with sent := frames } := bind_ok heq
  rw [hemit]
  cases ok with
  | true => exact .sent { s with sent := frames } (.single (.other s _ rfl))
  | false => exact .unsent { s with sent := frames } (.single (.other s _ rfl))

theorem tcpSendSegment_attempt (hpoll : Walks PollMove poll) (i : Conn) (flags : UInt8) (data : Bytes) (s : Stack) :
    Attempt i flags data.length s (tcpSendSegment poll n i flags data s) := by
  unfold tcpSendSegment
  split_ifs
  · exact .unsent s .refl
  · have hmoves : PollMoves s (resolveMac poll n (s.conns i).remoteIp s).2 := walks_resolveMac PollMove.idle hpoll _ s
    show Attempt i flags data.length s ((resolveMac poll n (s.conns i).remoteIp >>= _) s)
    rw [bind_apply]
    rcases hm : resolveMac poll n (s.conns i).remoteIp s with ⟨mac | _ | _, u⟩ <;> rw [hm] at hmoves
    · cases mac with
      | none => exact .unsent u hmoves
      | some dstMac => exact .of_moves hmoves (emitSegment_attempt i flags data dstMac u)
    · exact .fail u hmoves
    · exact .hang u hmoves

/-- An ACK is sent or not. -/
theorem walks_ack (hpoll : Walks PollMove poll) (i : Conn) : Walks PollMove (ignore (tcpSendSegment poll n i TCP_ACK [])) := by
  apply Walks.ignore
  intro s
  have hattempt := tcpSendSegment_attempt (n := n) hpoll i TCP_ACK [] s
  unfold Leads
  generalize tcpSendSegment poll n i TCP_ACK [] s = r at hattempt ⊢
  cases hattempt with
  | sent u h => exact h.tail (.acked u i)
  | unsent u h => exact h.tail (.unsent u i)
  | fail u h => exact h
  | hang u h => exact h

end Sending

/-! ### Polling -/

section Handlers

variable {poll : Exec Stack Unit} {n : ℕ} {s : Stack} {i : Conn} {seg : Segment}

/-- The state behind the first change that a segment makes. -/
def Stack.reacted (s : Stack) (i : Conn) (seg : Segment) : Stack :=
  (s.log i (.arrived (s.conns i) seg)).setConn i ((s.conns i).react seg)

theorem mem_events_reacted : .arrived (s.conns i) seg ∈ (s.reacted i seg).events i := by
  unfold Stack.reacted
  rw [setConn_events, log_events_self]
  exact List.mem_cons_self

/-- A segment that changes nothing. -/
theorem reacted_same (h : (s.conns i).react seg = s.conns i) : s.reacted i seg = s.log i (.arrived (s.conns i) seg) := by
  unfold Stack.reacted
  rw [h]
  exact setConn_conns_eq (s := s.log i (.arrived (s.conns i) seg))

section

variable (hpoll : Walks PollMove poll)
include hpoll

/-- The rest of the states that wait for the last FIN. -/
theorem onLastFin_moves {t : Stack} {c : TcpConn} (hseg : .arrived c seg ∈ t.events i)
    (hlast : LastFin c seg) : Leads PollMove (onLastFin poll n i) t := by
  apply (walks_ack hpoll i t).bind
  intro _ u hu
  exact .single (.shut u i c seg (PollMoves.mem_events hu hseg) hlast)

theorem takeFin_moves {t : Stack} {c : TcpConn} (hseg : .arrived c seg ∈ t.events i)
    (hrst : has seg.flags TCP_RST ≠ true) (hstate : c.state = .established) (hsettled : (t.conns i).Settled) :
    Leads PollMove (takeFin poll n i seg) t := by
  unfold takeFin
  split_ifs with hfin
  · have hmove : PollMove t (t.setConn i ((t.conns i).finish seg)) := .finished t i c seg hseg ⟨hrst, hfin, hstate⟩ hsettled
    exact (walks_ack hpoll i _).head hmove
  · exact .refl

/-- In every state the handler makes the change and goes on with moves. -/
theorem onSegment_moves (hrst : has seg.flags TCP_RST ≠ true) :
    PollMoves (s.reacted i seg) (onSegment poll n i seg (s.conns i).state (s.log i (.arrived (s.conns i) seg))).2 := by
  have hreact : (s.conns i).react seg = (s.conns i).reactIn seg (s.conns i).state := if_neg hrst
  have hput : ∀ c, (s.conns i).react seg = c → s.reacted i seg = (s.log i (.arrived (s.conns i) seg)).setConn i c := by
    rintro c rfl
    rfl
  cases hstate : (s.conns i).state with
  | synSent =>
    rw [hstate] at hreact
    simp only [TcpConn.reactIn] at hreact
    unfold onSegment onSynSent
    split_ifs at hreact ⊢ with hflags
    · rw [hput _ hreact]
      exact walks_ack hpoll i _
    · rw [reacted_same hreact]
      exact .refl
  | established =>
    rw [hstate] at hreact
    simp only [TcpConn.reactIn] at hreact
    have hsettled : ((s.reacted i seg).conns i).Settled := by
      unfold Stack.reacted
      rw [setConn_conns_self, hreact]
      split_ifs
      · exact .inr (.inl hstate)
      · exact .inr (.inl hstate)
    have hdata : ∃ m : Exec Stack Unit, Walks PollMove m ∧
        takeData poll n i seg (s.log i (.arrived (s.conns i) seg)) = m (s.reacted i seg) := by
      by_cases htake : 0 < seg.data.length ∧ seg.seqNum = (s.conns i).ack
      · rw [if_pos htake] at hreact
        refine ⟨_, walks_ack (n := n) hpoll i, ?_⟩
        rw [hput _ hreact]
        exact congrFun (if_pos htake) _
      · rw [if_neg htake] at hreact
        refine ⟨pure (), Walks.pure, ?_⟩
        rw [reacted_same hreact]
        exact congrFun (if_neg htake) _
    obtain ⟨m, hm, heq⟩ := hdata
    have hrest : Leads PollMove (m >>= fun _ => takeFin poll n i seg) (s.reacted i seg) := by
      apply (hm _).bind
      intro _ t ht
      exact takeFin_moves hpoll (PollMoves.mem_events ht mem_events_reacted) hrst hstate (PollMoves.settled ht hsettled)
    unfold Leads at hrest
    rw [bind_apply, ← heq] at hrest
    exact hrest
  | finWait1 =>
    rw [hstate] at hreact
    simp only [TcpConn.reactIn] at hreact
    unfold onSegment onFinWait1
    split_ifs at hreact ⊢ with hack hfin
    · rw [hput _ hreact]
      exact onLastFin_moves hpoll mem_events_reacted ⟨hrst, hfin, .inl ⟨hstate, hack⟩⟩
    · rw [hput _ hreact]
      exact .refl
    · rw [reacted_same hreact]
      exact .refl
  | finWait2 =>
    rw [hstate] at hreact
    simp only [TcpConn.reactIn] at hreact
    unfold onSegment onFinWait2
    split_ifs at hreact ⊢ with hfin
    · rw [hput _ hreact]
      exact onLastFin_moves hpoll mem_events_reacted ⟨hrst, hfin, .inr hstate⟩
    · rw [reacted_same hreact]
      exact .refl
  | lastAck =>
    rw [hstate] at hreact
    simp only [TcpConn.reactIn] at hreact
    unfold onSegment onLastAck
    split_ifs at hreact ⊢ with hack
    · rw [hput _ hreact]
      exact .refl
    · rw [reacted_same hreact]
      exact .refl
  | closed =>
    rw [reacted_same (hreact.trans (by rw [hstate]; rfl))]
    exact .refl
  | closeWait =>
    rw [reacted_same (hreact.trans (by rw [hstate]; rfl))]
    exact .refl
  | timeWait =>
    rw [reacted_same (hreact.trans (by rw [hstate]; rfl))]
    exact .refl

theorem deliver_moves (hactive : (s.conns i).active = true) : Leads PollMove (deliver poll n i seg) s := by
  have hmove : PollMove s (s.reacted i seg) := .arrived s i seg hactive
  have hrun : deliver poll n i seg s = (if has seg.flags TCP_RST = true then shutConn i
      else onSegment poll n i seg (s.conns i).state) (s.log i (.arrived (s.conns i) seg)) := rfl
  unfold Leads
  rw [hrun]
  split_ifs with hrst
  · have hshut : s.reacted i seg = (shutConn i (s.log i (.arrived (s.conns i) seg))).2 := by
      unfold Stack.reacted TcpConn.react
      rw [if_pos hrst]
      rfl
    rw [← hshut]
    exact .single hmove
  · exact (onSegment_moves hpoll hrst).head hmove

end

theorem findConn_active {srcIp : Ip} (h : s.findConn srcIp seg = some i) : (s.conns i).active = true := by
  have hfound := List.find?_some h
  simp only [Bool.and_eq_true] at hfound
  exact hfound.1.1.1

variable {frame : Bytes} {off len : ℕ} {srcIp : Ip}

theorem walks_handleTcp (hpoll : Walks PollMove poll) : Walks PollMove (handleTcp poll n frame off len srcIp) := by
  apply Walks.ofOption_bind
  intro found _
  cases found with
  | none => exact Walks.pure
  | some seg =>
    show Walks PollMove (dispatchSegment poll n srcIp seg)
    intro s
    have hrun : dispatchSegment poll n srcIp seg s = (s.findConn srcIp seg).elim (pure ()) (deliver poll n · seg) s := by
      unfold dispatchSegment
      rw [bind_ok (gets_apply _ s)]
      cases s.findConn srcIp seg <;> rfl
    unfold Leads
    rw [hrun]
    cases hfind : s.findConn srcIp seg with
    | none => exact .refl
    | some i => exact deliver_moves hpoll (findConn_active hfind)

section Idle

variable {Move : Stack → Stack → Prop} (hidle : Idle Move)

include hidle

theorem walks_handleArp : Walks Move (handleArp frame off len) := by
  apply Walks.ofOption_bind
  intro found _
  cases found with
  | none => exact Walks.pure
  | some arp =>
    show Walks Move (answerArp arp)
    unfold answerArp
    refine Walks.modify_bind (fun s => hidle _ _ ⟨rfl, rfl, List.suffix_rfl⟩) ?_
    apply Walks.read_bind
    intro ip
    split_ifs
    · exact Walks.read_bind fun cfg => (walks_sendEth hidle _ _ _).ignore
    · exact Walks.pure

theorem walks_handleIcmp : Walks Move (handleIcmp frame off len srcIp) := by
  apply Walks.ofOption_bind
  intro found _
  cases found with
  | none => exact Walks.pure
  | some msg =>
    show Walks Move (answerIcmp msg srcIp)
    unfold answerIcmp
    split_ifs
    · unfold echoReply
      split_ifs
      · exact Walks.pure
      · apply Walks.read_bind
        intro ip
        apply Walks.read_bind
        intro mac
        cases mac with
        | none => exact Walks.pure
        | some dstMac => exact (walks_sendEth hidle _ _ _).ignore
    · unfold pingReply
      apply Walks.modify
      intro s
      apply hidle
      constructor
      · split <;> rfl
      · split <;> rfl
      · split <;> exact List.suffix_rfl
    · exact Walks.pure

end Idle

/-- The handler does to the slot what its frame does; what else it does are moves. -/
theorem handleIpv4_eq (poll : Exec Stack Unit) (n : ℕ) (frame : Bytes) (off len : ℕ) (s : Stack) : handleIpv4 poll n frame off len s =
    (ofOption (parseIpv4 s.cfg.ip frame off len) >>= fun pkt => pkt.elim (pure ()) (dispatchIpv4 poll n frame)) s := by
  unfold handleIpv4
  rw [bind_ok (gets_apply _ s)]
  rcases parseIpv4 s.cfg.ip frame off len with _ | _ | pkt <;> rfl

theorem handleIpv4_moves (hpoll : Walks PollMove poll) (hetype : u16 frame 12 = some ETH_TYPE_IPV4)
    (hlen : ¬ frame.length < ETH_HLEN) (s : Stack) :
    PollMoves (s.offered frame) (handleIpv4 poll n frame ETH_HLEN (frame.length - ETH_HLEN) s).2 := by
  have hdatagram : datagram s.cfg.ip frame = ipv4Datagram s.cfg.ip frame ETH_HLEN (frame.length - ETH_HLEN) := by
    unfold datagram
    rw [if_neg hlen, hetype]
    rfl
  rw [handleIpv4_eq]
  unfold ipv4Datagram at hdatagram
  rcases hpkt : parseIpv4 s.cfg.ip frame ETH_HLEN (frame.length - ETH_HLEN) with _ | _ | pkt <;> rw [hpkt] at hdatagram
  · rw [offered_none hdatagram]
    exact .refl
  · rw [offered_none hdatagram]
    exact .refl
  · show PollMoves (s.offered frame) (dispatchIpv4 poll n frame pkt s).2
    replace hdatagram : datagram s.cfg.ip frame = if pkt.protocol = IP_PROTO_UDP then do
        let d ← (parseUdp frame pkt.payload pkt.payloadLen).join
        some (d, pkt.srcIp) else none := hdatagram
    unfold dispatchIpv4
    split_ifs with hicmp htcp hudp
    · rw [hicmp, if_neg (by decide)] at hdatagram
      rw [offered_none hdatagram]
      exact walks_handleIcmp PollMove.idle s
    · rw [htcp, if_neg (by decide)] at hdatagram
      rw [offered_none hdatagram]
      exact walks_handleTcp hpoll s
    · rw [if_pos hudp] at hdatagram
      unfold handleUdp
      rcases hd : parseUdp frame pkt.payload pkt.payloadLen with _ | _ | d <;> rw [hd] at hdatagram
      · rw [offered_none hdatagram]
        exact .refl
      · rw [offered_none hdatagram]
        exact .refl
      · have hoffer : s.offered frame = { s with udpRx := s.udpRx.offer d pkt.srcIp } := by
          unfold Stack.offered UdpRx.take
          rw [hdatagram]
          rfl
        rw [hoffer]
        exact .refl
    · rw [if_neg hudp] at hdatagram
      rw [offered_none hdatagram]
      exact .refl

theorem handleFrame_moves (hpoll : Walks PollMove poll) (frame : Bytes) (s : Stack) :
    PollMoves (s.offered frame) (handleFrame poll n frame s).2 := by
  unfold handleFrame
  split_ifs with hlen
  · rw [offered_none (if_pos hlen)]
    exact .refl
  · have hdatagram : ∀ etype, u16 frame 12 = some etype → etype ≠ ETH_TYPE_IPV4 → s.offered frame = s := by
      intro etype hetype hne
      apply offered_none
      unfold datagram
      rw [if_neg hlen, hetype]
      exact if_neg hne
    cases hetype : u16 frame 12 with
    | none =>
      rw [offered_none (by unfold datagram; rw [if_neg hlen, hetype]; rfl)]
      exact .refl
    | some etype =>
      show PollMoves (s.offered frame) (dispatchFrame poll n frame etype s).2
      unfold dispatchFrame
      split_ifs with harp hipv4
      · rw [hdatagram etype hetype (by rw [harp]; decide)]
        exact walks_handleArp PollMove.idle s
      · rw [hipv4] at hetype
        exact handleIpv4_moves hpoll hetype hlen s
      · rw [hdatagram etype hetype hipv4]
        exact .refl

theorem walks_pollLoop (hpoll : Walks PollMove poll) (count : ℕ) : Walks PollMove (pollLoop (handleFrame poll n) count) := by
  induction count with
  | zero => exact Walks.pure
  | succ count ih =>
    intro s
    have hnone : ∀ t, e1000PollRx s = (.ok none, t) → t = s → Leads PollMove (pollLoop (handleFrame poll n) (count + 1)) s := by
      rintro t heq rfl
      unfold Leads pollLoop
      rw [bind_ok heq]
      exact .refl
    by_cases hup : s.up = true
    · cases hrx : s.rx with
      | nil =>
        apply hnone s _ rfl
        unfold e1000PollRx
        rw [if_pos hup, hrx]
      | cons f rx =>
        have heq : e1000PollRx s = (.ok (some (f.take 2048)), s.receive (f.take 2048) rx) := by
          unfold e1000PollRx
          rw [if_pos hup, hrx]
        have hmove : PollMove s ((s.receive (f.take 2048) rx).offered (f.take 2048)) := .received s _ _
        have hrest : PollMoves s ((do handleFrame poll n (f.take 2048); pollLoop (handleFrame poll n) count : Exec Stack Unit)
            (s.receive (f.take 2048) rx)).2 := by
          apply bind_state (I := fun t => PollMoves s t)
          · exact (handleFrame_moves hpoll _ _).head hmove
          · exact fun _ t ht => ht.trans (ih t)
        unfold Leads pollLoop
        rw [bind_ok heq]
        exact hrest
    · exact hnone s (if_neg hup) rfl

theorem walks_arrive {Move : Stack → Stack → Prop} (hidle : Idle Move) {m : Exec Stack Unit} (hm : Walks Move m) :
    Walks Move (do modify Stack.arrive; m) := by
  apply Walks.modify_bind _ hm
  intro s
  apply hidle
  unfold Stack.arrive
  split
  · exact ⟨rfl, rfl, List.suffix_rfl⟩
  · next hworld => exact ⟨rfl, rfl, by rw [hworld]; exact List.suffix_cons _ _⟩

theorem walks_netPoll (n : ℕ) : Walks PollMove (netPoll n) := by
  induction n with
  | zero => exact walks_arrive PollMove.idle (walks_pollLoop Walks.hang 64)
  | succ n ih => exact walks_arrive PollMove.idle (walks_pollLoop ih 64)

end Handlers

end Tg11Kernel.Net
