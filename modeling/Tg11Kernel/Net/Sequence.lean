import Tg11Kernel.Net.Stream

/-! The sequence number of a connection. It counts what was sent: the SYN, the bytes and the
FIN. The handler copies acknowledgement numbers into it without a check, so that this holds
as long as segments acknowledge what was sent, and the same is true of the states that a FIN
and its acknowledgement lead to. -/

namespace Tg11Kernel.Net

open Lib Exec Relation

/-! ### What was sent -/

namespace TcpEvent

def syn : TcpEvent → ℕ
  | .sent flags _ _ => if has flags TCP_SYN = true then 1 else 0
  | _ => 0

def bytes : TcpEvent → ℕ
  | .sent _ _ len => len
  | _ => 0

def fin : TcpEvent → ℕ
  | .sent flags _ _ => if has flags TCP_FIN = true then 1 else 0
  | _ => 0

variable {flags : UInt8} {seq : UInt32} {len : ℕ}

theorem syn_one (h : has flags TCP_SYN = true) : (sent flags seq len).syn = 1 := if_pos h

theorem syn_zero (h : has flags TCP_SYN ≠ true) : (sent flags seq len).syn = 0 := if_neg h

theorem fin_one (h : has flags TCP_FIN = true) : (sent flags seq len).fin = 1 := if_pos h

theorem fin_zero (h : has flags TCP_FIN ≠ true) : (sent flags seq len).fin = 0 := if_neg h

end TcpEvent

def synsSent (events : List TcpEvent) : ℕ := (events.map TcpEvent.syn).sum

def bytesSent (events : List TcpEvent) : ℕ := (events.map TcpEvent.bytes).sum

def finsSent (events : List TcpEvent) : ℕ := (events.map TcpEvent.fin).sum

/-- The next sequence number. -/
def nextSeq (isn : UInt32) (events : List TcpEvent) : UInt32 :=
  isn + UInt32.ofNat (synsSent events + bytesSent events + finsSent events)

/-- A SYN-ACK with the number behind our SYN reached the connection while it waited for one. -/
def Established (isn : UInt32) (events : List TcpEvent) : Prop :=
  ∃ c seg, .arrived c seg ∈ events ∧ c.state = .synSent ∧ has seg.flags TCP_RST ≠ true ∧
    has seg.flags (TCP_SYN ||| TCP_ACK) = true ∧ seg.ackNum = isn + 1

/-- A segment acknowledged all that had been sent, our FIN included. -/
def FinAcked (isn : UInt32) (events : List TcpEvent) : Prop :=
  ∃ newer c seg older, events = newer ++ .arrived c seg :: older ∧ has seg.flags TCP_ACK = true ∧ finsSent older = 1 ∧
    seg.ackNum = nextSeq isn older

/-- The number in the connection, and in each segment that is sent, is the next one. -/
def Numbered (isn : UInt32) : List TcpEvent → TcpEvent → Prop
  | older, .arrived c _ => c.seq = nextSeq isn older
  | older, .sent _ seq _ => seq = nextSeq isn older
  | _, _ => True

/-- What the sender owes its own numbers. -/
structure Sequenced (v : ConnView) : Prop where
  seq : v.conn.seq = nextSeq v.isn v.events
  history : Every (Numbered v.isn) v.events
  syns : synsSent v.events ≤ 1
  fins : finsSent v.events ≤ 1
  established : v.conn.state ≠ .synSent → v.conn.state ≠ .closed → synsSent v.events = 1 ∧ Established v.isn v.events
  finAcked : v.conn.state = .finWait2 ∨ v.conn.state = .timeWait ∨ v.conn.state = .closed ∧ finsSent v.events = 1 →
    FinAcked v.isn v.events

/-- The segment acknowledges what was sent: our SYN when we wait for that, our FIN when we
wait for that. -/
structure Answers (isn : UInt32) (older : List TcpEvent) (c : TcpConn) (seg : Segment) : Prop where
  synAck : c.state = .synSent → has seg.flags TCP_RST ≠ true → has seg.flags (TCP_SYN ||| TCP_ACK) = true →
    seg.ackNum = isn + 1 ∧ synsSent older = 1
  finAck : c.state = .finWait1 ∨ c.state = .lastAck → has seg.flags TCP_RST = true ∨ has seg.flags TCP_ACK = true →
    has seg.flags TCP_ACK = true ∧ seg.ackNum = c.seq ∧ finsSent older = 1

/-- Segments answer, the FIN can be sent, and a close does not give up waiting for its
acknowledgement. -/
def Answered (isn : UInt32) : List TcpEvent → TcpEvent → Prop
  | older, .arrived c seg => Answers isn older c seg
  | _, .unsent flags => has flags TCP_FIN ≠ true
  | _, .gaveUp c => c.state ≠ .finWait1 ∧ c.state ≠ .lastAck
  | _, _ => True

/-! ### The invariant -/

/-- A connection that is past the handshake. -/
def Up (isn : UInt32) (events : List TcpEvent) : Prop := synsSent events = 1 ∧ Established isn events

def TcpState.Opened (state : TcpState) : Prop := state ≠ .synSent ∧ state ≠ .closed

/-- The states of a connection that has sent its FIN. -/
def TcpState.Finishing (state : TcpState) : Prop :=
  state = .finWait1 ∨ state = .finWait2 ∨ state = .timeWait ∨ state = .lastAck

structure SeqInv (v : ConnView) : Prop where
  seq : v.conn.seq = nextSeq v.isn v.events
  history : Every (Numbered v.isn) v.events
  syns : synsSent v.events ≤ 1
  fins : finsSent v.events ≤ 1
  waiting : v.conn.state = .synSent → bytesSent v.events = 0
  up : v.conn.state.Opened → Up v.isn v.events
  arrivedUp : ∀ c seg, .arrived c seg ∈ v.events → c.state.Opened → Up v.isn v.events
  closed : v.conn.state = .closed → v.conn.active = false
  finishing : finsSent v.events = 1 → v.conn.active = true → v.conn.state.Finishing
  acked : v.conn.state = .finWait2 ∨ v.conn.state = .timeWait → FinAcked v.isn v.events
  inactive : finsSent v.events = 1 → v.conn.active = false → FinAcked v.isn v.events
  lastFin : ∀ c seg, .arrived c seg ∈ v.events → LastFin c seg → FinAcked v.isn v.events

section Counts

variable {isn : UInt32} {e : TcpEvent} {events : List TcpEvent}

@[simp] theorem synsSent_cons : synsSent (e :: events) = e.syn + synsSent events := by simp [synsSent]

@[simp] theorem bytesSent_cons : bytesSent (e :: events) = e.bytes + bytesSent events := by simp [bytesSent]

@[simp] theorem finsSent_cons : finsSent (e :: events) = e.fin + finsSent events := by simp [finsSent]

/-- What is counted grows with the history. -/
theorem counts_mono (newer older : List TcpEvent) :
    synsSent older ≤ synsSent (newer ++ older) ∧ bytesSent older ≤ bytesSent (newer ++ older) ∧
      finsSent older ≤ finsSent (newer ++ older) := by
  unfold synsSent bytesSent finsSent
  simp only [List.map_append, List.sum_append]
  omega

/-- An event that counts nothing. -/
def Uncounted (e : TcpEvent) : Prop := e.syn = 0 ∧ e.bytes = 0 ∧ e.fin = 0

theorem Uncounted.syns (h : Uncounted e) : synsSent (e :: events) = synsSent events := by
  rw [synsSent_cons, h.1, Nat.zero_add]

theorem Uncounted.fins (h : Uncounted e) : finsSent (e :: events) = finsSent events := by
  rw [finsSent_cons, h.2.2, Nat.zero_add]

theorem Uncounted.nextSeq (h : Uncounted e) : nextSeq isn (e :: events) = nextSeq isn events := by
  unfold Net.nextSeq
  rw [h.syns, h.fins, bytesSent_cons, h.2.1, Nat.zero_add]

theorem uncounted_arrived (c : TcpConn) (seg : Segment) : Uncounted (.arrived c seg) := ⟨rfl, rfl, rfl⟩

theorem uncounted_unsent (flags : UInt8) : Uncounted (.unsent flags) := ⟨rfl, rfl, rfl⟩

theorem uncounted_returned (data : Bytes) : Uncounted (.returned data) := ⟨rfl, rfl, rfl⟩

theorem uncounted_gaveUp (c : TcpConn) : Uncounted (.gaveUp c) := ⟨rfl, rfl, rfl⟩

theorem uncounted_sent {flags : UInt8} (seq : UInt32) (hsyn : has flags TCP_SYN ≠ true) (hfin : has flags TCP_FIN ≠ true) :
    Uncounted (.sent flags seq 0) := ⟨TcpEvent.syn_zero hsyn, rfl, TcpEvent.fin_zero hfin⟩

theorem uncounted_ack (seq : UInt32) : Uncounted (.sent TCP_ACK seq 0) := uncounted_sent seq (by decide) (by decide)

theorem Established.cons (h : Established isn events) (e : TcpEvent) : Established isn (e :: events) := by
  obtain ⟨c, seg, hmem, hrest⟩ := h
  exact ⟨c, seg, List.mem_cons_of_mem e hmem, hrest⟩

theorem FinAcked.cons (h : FinAcked isn events) (e : TcpEvent) : FinAcked isn (e :: events) := by
  obtain ⟨newer, c, seg, older, rfl, hrest⟩ := h
  exact ⟨e :: newer, c, seg, older, rfl, hrest⟩

theorem Up.cons (h : Up isn events) (e : TcpEvent) (hsyns : synsSent (e :: events) ≤ 1) : Up isn (e :: events) := by
  refine ⟨?_, h.2.cons e⟩
  have hone := h.1
  rw [synsSent_cons] at hsyns ⊢
  omega

theorem finAcked_now {c : TcpConn} {seg : Segment} (hack : has seg.flags TCP_ACK = true) (hfins : finsSent events = 1)
    (hnum : seg.ackNum = Net.nextSeq isn events) : FinAcked isn (.arrived c seg :: events) :=
  ⟨[], c, seg, events, rfl, hack, hfins, hnum⟩

/-- Without a FIN there is nothing to acknowledge. -/
theorem FinAcked.fins (h : FinAcked isn events) : 1 ≤ finsSent events := by
  obtain ⟨newer, c, seg, older, rfl, -, hfins, -⟩ := h
  have hmono := (counts_mono newer (.arrived c seg :: older)).2.2
  rw [(uncounted_arrived c seg).fins, hfins] at hmono
  exact hmono

end Counts

section Invariant

variable {v : ConnView}

section

variable (h : SeqInv v)
include h

/-- An event that counts nothing; when it is an arrival, a last FIN acknowledges ours. -/
theorem SeqInv.log {e : TcpEvent} (hcount : Uncounted e) (hnum : Numbered v.isn v.events e)
    (harrived : ∀ c seg, e = .arrived c seg → c = v.conn ∧ (LastFin c seg → FinAcked v.isn (e :: v.events))) : SeqInv (v.log e) where
  seq := h.seq.trans hcount.nextSeq.symm
  history := And.intro hnum h.history
  syns := by
    show synsSent (e :: v.events) ≤ 1
    rw [hcount.syns]
    exact h.syns
  fins := by
    show finsSent (e :: v.events) ≤ 1
    rw [hcount.fins]
    exact h.fins
  waiting hstate := by
    show bytesSent (e :: v.events) = 0
    rw [bytesSent_cons, hcount.2.1, h.waiting hstate]
  up hstate := (h.up hstate).cons e (by rw [hcount.syns]; exact h.syns)
  arrivedUp c seg hmem hstate := by
    have hup : Up v.isn v.events := by
      rcases List.mem_cons.1 hmem with heq | hmem
      · rw [(harrived c seg heq.symm).1] at hstate
        exact h.up hstate
      · exact h.arrivedUp c seg hmem hstate
    exact hup.cons e (by rw [hcount.syns]; exact h.syns)
  closed := h.closed
  finishing hfins := h.finishing (hcount.fins.symm.trans hfins)
  acked hstate := (h.acked hstate).cons e
  inactive hfins hactive := (h.inactive (hcount.fins.symm.trans hfins) hactive).cons e
  lastFin c seg hmem hlast := by
    rcases List.mem_cons.1 hmem with heq | hmem
    · exact (harrived c seg heq.symm).2 hlast
    · exact (h.lastFin c seg hmem hlast).cons e

variable {c : TcpConn} {seg : Segment}

/-- Another connection with the same number. -/
theorem SeqInv.put (hseq : c.seq = v.conn.seq) (hwaiting : c.state = .synSent → v.conn.state = .synSent)
    (hup : c.state.Opened → Up v.isn v.events) (hclosed : c.state = .closed → c.active = false)
    (hfinishing : finsSent v.events = 1 → c.active = true → c.state.Finishing)
    (hacked : c.state = .finWait2 ∨ c.state = .timeWait → FinAcked v.isn v.events)
    (hinactive : finsSent v.events = 1 → c.active = false → FinAcked v.isn v.events) : SeqInv (v.put c) where
  seq := hseq.trans h.seq
  history := h.history
  syns := h.syns
  fins := h.fins
  waiting hstate := h.waiting (hwaiting hstate)
  up := hup
  arrivedUp := h.arrivedUp
  closed := hclosed
  finishing := hfinishing
  acked := hacked
  inactive := hinactive
  lastFin := h.lastFin

/-- A change of neither the number nor the state. -/
theorem SeqInv.put_same (hseq : c.seq = v.conn.seq) (hstate : c.state = v.conn.state)
    (hactive : c.active = v.conn.active) : SeqInv (v.put c) := by
  apply h.put hseq
  · exact fun hs => hstate.symm.trans hs
  · exact fun hs => h.up (hstate ▸ hs)
  · exact fun hs => hactive.trans (h.closed (hstate.symm.trans hs))
  · intro hfins ha
    rw [hstate]
    exact h.finishing hfins (hactive.symm.trans ha)
  · rw [hstate]
    exact h.acked
  · exact fun hfins ha => h.inactive hfins (hactive.symm.trans ha)

/-- The connection is closed at once. -/
theorem SeqInv.put_shut (hacked : finsSent v.events = 1 → FinAcked v.isn v.events) : SeqInv (v.put v.conn.shut) := by
  apply h.put (c := v.conn.shut) rfl
  · exact TcpState.noConfusion
  · exact fun hs => absurd rfl hs.2
  · exact fun _ => rfl
  · exact fun _ hactive => Bool.noConfusion hactive
  · rintro (hs | hs) <;> cases hs
  · exact fun hfins _ => hacked hfins

theorem SeqInv.fins_zero (hactive : v.conn.active = true) (hstate : ¬ v.conn.state.Finishing) : finsSent v.events = 0 := by
  have hle := h.fins
  by_contra hne
  exact hstate (h.finishing (by omega) hactive)

/-- The SYN-ACK with the number behind our SYN changes no number. -/
theorem SeqInv.put_established {ack seq : UInt32} (hstate : v.conn.state = .synSent) (hseq : seq = v.isn + 1)
    (hsyns : synsSent v.events = 1) (hactive : v.conn.active = true) (hestablished : Established v.isn v.events) :
    SeqInv (v.put { v.conn with ack := ack, seq := seq, state := .established }) := by
  have hfins : finsSent v.events = 0 := by
    apply h.fins_zero hactive
    rw [hstate]
    rintro (hs | hs | hs | hs) <;> cases hs
  have hnum : seq = v.conn.seq := by
    rw [hseq, h.seq, nextSeq, hsyns, h.waiting hstate, hfins]
    rfl
  apply h.put hnum
  · exact TcpState.noConfusion
  · exact fun _ => ⟨hsyns, hestablished⟩
  · exact TcpState.noConfusion
  · intro hone _
    rw [hfins] at hone
    exact absurd hone (by decide)
  · rintro (hs | hs) <;> cases hs
  · intro hone _
    rw [hfins] at hone
    exact absurd hone (by decide)

/-- A segment that is sent moves the number on by what it counts. -/
theorem SeqInv.transmit {flags : UInt8} {len : ℕ} {d : UInt32} (e : TcpEvent) (he : e = .sent flags v.conn.seq len)
    (hd : d = UInt32.ofNat (e.syn + e.bytes + e.fin)) (hsyns : synsSent (e :: v.events) ≤ 1) (hfins : finsSent (e :: v.events) ≤ 1)
    (hwaiting : v.conn.state = .synSent → e.bytes = 0)
    (hfin : e.fin = 1 → finsSent v.events = 0 ∧ v.conn.active = true ∧ v.conn.state.Finishing) :
    SeqInv (v.transmit flags len d) := by
  have hview : v.transmit flags len d = (v.log e).put { v.conn with seq := v.conn.seq + d } := by
    rw [he]
    rfl
  have hold : finsSent (e :: v.events) = 1 → e.fin = 1 ∨ finsSent v.events = 1 := by
    intro hone
    rw [finsSent_cons] at hone
    omega
  have hmem : ∀ {c : TcpConn} {seg : Segment}, .arrived c seg ∈ e :: v.events → .arrived c seg ∈ v.events := by
    intro c seg hmem
    rw [he] at hmem
    simpa using hmem
  rw [hview]
  exact {
    seq := by
      show v.conn.seq + d = nextSeq v.isn (e :: v.events)
      unfold nextSeq
      rw [h.seq, hd, nextSeq, UInt32.add_assoc, ← UInt32.ofNat_add, synsSent_cons, bytesSent_cons, finsSent_cons]
      congr 2
      omega
    history := by
      refine And.intro ?_ h.history
      rw [he]
      exact h.seq
    syns := hsyns
    fins := hfins
    waiting := fun hstate => by
      show bytesSent (e :: v.events) = 0
      rw [bytesSent_cons, hwaiting hstate, h.waiting hstate]
    up := fun hstate => (h.up hstate).cons e hsyns
    arrivedUp := fun c seg hseg hstate => (h.arrivedUp c seg (hmem hseg) hstate).cons e hsyns
    closed := h.closed
    finishing := fun hone hactive => by
      rcases hold hone with hnew | hone
      · exact (hfin hnew).2.2
      · exact h.finishing hone hactive
    acked := fun hstate => (h.acked hstate).cons e
    inactive := fun hone hactive => by
      rcases hold hone with hnew | hone
      · rw [show v.conn.active = false from hactive] at hfin
        exact Bool.noConfusion (hfin hnew).2.1
      · exact (h.inactive hone hactive).cons e
    lastFin := fun c seg hseg hlast => (h.lastFin c seg (hmem hseg) hlast).cons e }

/-- A segment that acknowledges what was sent keeps the invariant, in every state. -/
theorem SeqInv.arrive (hactive : v.conn.active = true) (hanswers : Answers v.isn v.events v.conn seg) :
    SeqInv ((v.log (.arrived v.conn seg)).put (v.conn.react seg)) := by
  have hhere : v.conn.state = .finWait1 ∨ v.conn.state = .lastAck → has seg.flags TCP_RST = true ∨ has seg.flags TCP_ACK = true →
      FinAcked v.isn (.arrived v.conn seg :: v.events) := by
    intro hstate hflags
    obtain ⟨hack, hnum, hfins⟩ := hanswers.finAck hstate hflags
    exact finAcked_now hack hfins (hnum.trans h.seq)
  have hlog : SeqInv (v.log (.arrived v.conn seg)) := by
    apply h.log (uncounted_arrived v.conn seg) h.seq
    intro c seg' heq
    obtain ⟨rfl, rfl⟩ : v.conn = c ∧ seg = seg' := by simpa using heq
    refine ⟨rfl, ?_⟩
    rintro ⟨-, -, ⟨hstate, hack⟩ | hstate⟩
    · exact hhere (.inl hstate) (.inr hack)
    · exact (h.acked (.inl hstate)).cons _
  have hfins : ∀ {k : ℕ}, finsSent (.arrived v.conn seg :: v.events) = k → finsSent v.events = k :=
    fun hk => (uncounted_arrived v.conn seg).fins.symm.trans hk
  have hsame : SeqInv ((v.log (.arrived v.conn seg)).put v.conn) := hlog.put_same rfl rfl rfl
  unfold TcpConn.react
  split_ifs with hrst
  · apply hlog.put_shut
    intro hone
    rcases h.finishing (hfins hone) hactive with hs | hs | hs | hs
    · exact hhere (.inl hs) (.inl hrst)
    · exact (h.acked (.inl hs)).cons _
    · exact (h.acked (.inr hs)).cons _
    · exact hhere (.inr hs) (.inl hrst)
  · cases hstate : v.conn.state with
    | synSent =>
      simp only [TcpConn.reactIn]
      split_ifs with hflags
      · obtain ⟨hnum, hsyns⟩ := hanswers.synAck hstate hrst hflags
        exact hlog.put_established hstate hnum ((uncounted_arrived v.conn seg).syns.trans hsyns) hactive
          ⟨v.conn, seg, List.mem_cons_self, hstate, hrst, hflags, hnum⟩
      · exact hsame
    | established =>
      simp only [TcpConn.reactIn]
      split_ifs
      · exact hlog.put_same rfl rfl rfl
      · exact hsame
    | finWait1 =>
      have hup : Up v.isn (.arrived v.conn seg :: v.events) := by
        apply hlog.up
        show v.conn.state.Opened
        rw [hstate]
        exact ⟨TcpState.noConfusion, TcpState.noConfusion⟩
      simp only [TcpConn.reactIn]
      split_ifs with hack hfin
      · apply hlog.put (hanswers.finAck (.inl hstate) (.inr hack)).2.1
        · exact TcpState.noConfusion
        · exact fun _ => hup
        · exact TcpState.noConfusion
        · exact fun _ _ => .inr (.inr (.inl rfl))
        · exact fun _ => hhere (.inl hstate) (.inr hack)
        · exact fun _ _ => hhere (.inl hstate) (.inr hack)
      · apply hlog.put (hanswers.finAck (.inl hstate) (.inr hack)).2.1
        · exact TcpState.noConfusion
        · exact fun _ => hup
        · exact TcpState.noConfusion
        · exact fun _ _ => .inr (.inl rfl)
        · exact fun _ => hhere (.inl hstate) (.inr hack)
        · exact fun _ _ => hhere (.inl hstate) (.inr hack)
      · exact hsame
    | finWait2 =>
      simp only [TcpConn.reactIn]
      split_ifs
      · exact hlog.put_same rfl rfl rfl
      · exact hsame
    | lastAck =>
      simp only [TcpConn.reactIn]
      split_ifs with hack
      · exact hlog.put_shut fun _ => hhere (.inr hstate) (.inr hack)
      · exact hsame
    | closed => exact hsame
    | closeWait => exact hsame
    | timeWait => exact hsame

/-- The FIN of the other side, whenever it is processed. -/
theorem SeqInv.finish (hseg : .arrived c seg ∈ v.events) (hpeer : PeerFin c seg)
    (hsettled : v.conn.Settled) : SeqInv (v.put (v.conn.finish seg)) := by
  have hopened : c.state.Opened := by
    rw [hpeer.2.2]
    exact ⟨TcpState.noConfusion, TcpState.noConfusion⟩
  apply h.put (c := v.conn.finish seg) rfl
  · exact TcpState.noConfusion
  · exact fun _ => h.arrivedUp c seg hseg hopened
  · exact TcpState.noConfusion
  · intro hone hactive
    have hstate := h.finishing hone hactive
    rcases hsettled with hs | hs | hs
    · exact absurd (hs.symm.trans hactive) Bool.false_ne_true
    · rw [hs] at hstate
      rcases hstate with hs | hs | hs | hs <;> cases hs
    · rw [hs] at hstate
      rcases hstate with hs | hs | hs | hs <;> cases hs
  · rintro (hs | hs) <;> cases hs
  · exact h.inactive

/-- Giving up is harmless where our FIN is not waited for. -/
theorem SeqInv.gaveUp (hstate : v.conn.state ≠ .finWait1 ∧ v.conn.state ≠ .lastAck) :
    SeqInv ((v.log (.gaveUp v.conn)).put v.conn.shut) := by
  have hlog : SeqInv (v.log (.gaveUp v.conn)) := h.log (uncounted_gaveUp v.conn) trivial fun _ _ harr => by cases harr
  apply hlog.put_shut
  intro hone
  have hold : finsSent v.events = 1 := (uncounted_gaveUp v.conn).fins.symm.trans hone
  cases hactive : v.conn.active with
  | false => exact (h.inactive hold hactive).cons _
  | true =>
    rcases h.finishing hold hactive with hs | hs | hs | hs
    · exact absurd hs hstate.1
    · exact (h.acked (.inl hs)).cons _
    · exact (h.acked (.inr hs)).cons _
    · exact absurd hs hstate.2

end

end Invariant

/-! ### Runs -/

/-- The invariant holds as long as all that was sent was answered. -/
def SeqKept (v : ConnView) : Prop := Every (Answered v.isn) v.events → SeqInv v

section Runs

variable {u v w : ConnView}

theorem ConnPoll.isn (h : ConnPoll v w) : w.isn = v.isn := by
  cases h <;> rfl

/-- A poll sends no SYN, no bytes and no FIN. -/
theorem ConnPoll.counts (h : ConnPoll v w) : synsSent w.events = synsSent v.events ∧ finsSent w.events = finsSent v.events := by
  cases h with
  | same => exact ⟨rfl, rfl⟩
  | arrived seg hactive => exact ⟨(uncounted_arrived _ _).syns, (uncounted_arrived _ _).fins⟩
  | acked => exact ⟨(uncounted_ack _).syns, (uncounted_ack _).fins⟩
  | unsent => exact ⟨(uncounted_unsent _).syns, (uncounted_unsent _).fins⟩
  | finished c seg hseg hfin hsettled => exact ⟨rfl, rfl⟩
  | shut c seg hseg hlast => exact ⟨rfl, rfl⟩

theorem ConnPolls.counts (h : ConnPolls v w) : synsSent w.events = synsSent v.events ∧ finsSent w.events = finsSent v.events := by
  induction h with
  | refl => exact ⟨rfl, rfl⟩
  | tail _ hmove ih => exact ⟨hmove.counts.1.trans ih.1, hmove.counts.2.trans ih.2⟩

theorem SeqKept.poll (h : SeqKept v) (hmove : ConnPoll v w) : SeqKept w := by
  cases hmove with
  | same => exact h
  | arrived seg hactive => exact fun hevery => (h hevery.2).arrive hactive hevery.1
  | acked => exact fun hevery => (h hevery.2).log (uncounted_ack v.conn.seq) (h hevery.2).seq fun _ _ harr => by cases harr
  | unsent => exact fun hevery => (h hevery.2).log (uncounted_unsent TCP_ACK) trivial fun _ _ harr => by cases harr
  | finished c seg hseg hfin hsettled => exact fun hevery => (h hevery).finish hseg hfin hsettled
  | shut c seg hseg hlast => exact fun hevery => (h hevery).put_shut fun _ => (h hevery).lastFin c seg hseg hlast

theorem SeqKept.polls (h : SeqKept v) (hmoves : ConnPolls v w) : SeqKept w :=
  invariant_of_moves (I := SeqKept) (fun _ _ hu hmove => hu.poll hmove) hmoves h

theorem seqInv_fresh (dstIp : Ip) (localPort dstPort : UInt16) (isn : UInt32) :
    SeqInv ⟨isn, [], freshConn dstIp localPort dstPort isn⟩ where
  seq := (UInt32.add_zero isn).symm
  history := trivial
  syns := Nat.zero_le _
  fins := Nat.zero_le _
  waiting _ := rfl
  up hs := absurd rfl hs.1
  arrivedUp _ _ hmem := absurd hmem List.not_mem_nil
  closed hs := by cases hs
  finishing hone := absurd hone Nat.zero_ne_one
  acked := by rintro (hs | hs) <;> cases hs
  inactive hone := absurd hone Nat.zero_ne_one
  lastFin _ _ hmem := absurd hmem List.not_mem_nil

theorem ConnOpening.kept (h : ConnOpening u) : SeqKept u ∧ synsSent u.events = 0 ∧ finsSent u.events = 0 := by
  obtain ⟨dstIp, localPort, dstPort, isn, hpolls⟩ := h.opens
  have hfresh : SeqKept ⟨isn, [], freshConn dstIp localPort dstPort isn⟩ := fun _ => seqInv_fresh dstIp localPort dstPort isn
  exact ⟨hfresh.polls hpolls, hpolls.counts⟩

/-- A close on the way to its FIN: as long as all was answered nothing has happened to it. -/
structure Pending (v : ConnView) : Prop where
  inv : SeqInv v
  fins : finsSent v.events = 0
  active : v.conn.active = true
  state : v.conn.state = .finWait1 ∨ v.conn.state = .lastAck

theorem Pending.react (h : Pending v) {seg : Segment} (hanswers : Answers v.isn v.events v.conn seg) : v.conn.react seg = v.conn := by
  have hnone : ¬ (has seg.flags TCP_RST = true ∨ has seg.flags TCP_ACK = true) := by
    intro hflags
    have hone := (hanswers.finAck h.state hflags).2.2
    rw [h.fins] at hone
    exact absurd hone (by decide)
  have hrst : ¬ has seg.flags TCP_RST = true := fun hr => hnone (.inl hr)
  have hack : ¬ has seg.flags TCP_ACK = true := fun ha => hnone (.inr ha)
  unfold TcpConn.react
  rw [if_neg hrst]
  rcases h.state with hs | hs
  · rw [hs]
    exact if_neg hack
  · rw [hs]
    exact if_neg hack

theorem Pending.poll (h : Every (Answered v.isn) v.events → Pending v) (hmove : ConnPoll v w) :
    Every (Answered w.isn) w.events → Pending w := by
  have hkept : SeqKept v := fun hevery => (h hevery).inv
  have hinv := hkept.poll hmove
  cases hmove with
  | same => exact h
  | arrived seg hactive =>
    intro hevery
    have hp := h hevery.2
    have hsame := hp.react hevery.1
    exact {
      inv := hinv hevery
      fins := (uncounted_arrived _ _).fins.trans hp.fins
      active := (congrArg TcpConn.active hsame).trans hp.active
      state := by
        show (v.conn.react seg).state = _ ∨ (v.conn.react seg).state = _
        rw [hsame]
        exact hp.state }
  | acked => exact fun hevery => ⟨hinv hevery, (uncounted_ack _).fins.trans (h hevery.2).fins, (h hevery.2).active, (h hevery.2).state⟩
  | unsent => exact fun hevery => ⟨hinv hevery, (uncounted_unsent _).fins.trans (h hevery.2).fins, (h hevery.2).active, (h hevery.2).state⟩
  | finished c seg hseg hfin hsettled =>
    intro hevery
    have hp := h hevery
    exfalso
    rcases hsettled with hs | hs | hs
    · exact absurd (hs.symm.trans hp.active) Bool.false_ne_true
    · rcases hp.state with hs' | hs' <;> cases hs.symm.trans hs'
    · rcases hp.state with hs' | hs' <;> cases hs.symm.trans hs'
  | shut c seg hseg hlast =>
    intro hevery
    have hp := h hevery
    have hfins := (hp.inv.lastFin c seg hseg hlast).fins
    rw [hp.fins] at hfins
    exact absurd hfins (by decide)

/-- The events of a connection grow in a poll, so that what was answered at the end was before. -/
theorem ConnPolls.every (h : ConnPolls v w) (hevery : Every (Answered w.isn) w.events) : Every (Answered v.isn) v.events := by
  induction h with
  | refl => exact hevery
  | tail _ hmove ih =>
    apply ih
    rw [← hmove.isn]
    cases hmove with
    | same => exact hevery
    | arrived seg hactive => exact hevery.2
    | acked => exact hevery.2
    | unsent => exact hevery.2
    | finished c seg hseg hfin hsettled => exact hevery
    | shut c seg hseg hlast => exact hevery

variable {state : TcpState}

theorem ConnClosing.pending (h : ConnClosing v state u) (hv : SeqKept v) (hevery : Every (Answered u.isn) u.events) :
    Pending u := by
  have hbefore := ConnPolls.every h.polls hevery
  have hinv := hv hbefore
  have hopen : v.conn.state = .established ∨ v.conn.state = .closeWait := h.closes.2.imp And.left And.left
  have hwaits : state = .finWait1 ∨ state = .lastAck := h.closes.2.imp And.right And.right
  have hfins : finsSent v.events = 0 := by
    apply hinv.fins_zero h.closes.1
    rcases hopen with hs | hs
    · rw [hs]
      rintro (hs | hs | hs | hs) <;> cases hs
    · rw [hs]
      rintro (hs | hs | hs | hs) <;> cases hs
  have hup : Up v.isn v.events := by
    apply hinv.up
    rcases hopen with hs | hs
    · rw [hs]
      exact ⟨TcpState.noConfusion, TcpState.noConfusion⟩
    · rw [hs]
      exact ⟨TcpState.noConfusion, TcpState.noConfusion⟩
  have hne : ∀ {k : TcpState}, k ≠ .finWait1 → k ≠ .lastAck → state ≠ k := by
    rintro k h1 h2 rfl
    rcases hwaits with hs | hs
    · exact h1 hs
    · exact h2 hs
  have hstart : Pending (v.put { v.conn with state := state }) := by
    refine ⟨?_, hfins, h.closes.1, hwaits⟩
    apply hinv.put (c := { v.conn with state := state }) rfl
    · exact fun hs => absurd hs (hne (by decide) (by decide))
    · exact fun _ => hup
    · exact fun hs => absurd hs (hne (by decide) (by decide))
    · intro hone
      rw [hfins] at hone
      exact absurd hone (by decide)
    · rintro (hs | hs)
      · exact absurd hs (hne (by decide) (by decide))
      · exact absurd hs (hne (by decide) (by decide))
    · intro hone
      rw [hfins] at hone
      exact absurd hone (by decide)
  exact invariant_of_moves (I := fun x => Every (Answered x.isn) x.events → Pending x) (fun _ _ hx hmove => Pending.poll hx hmove)
    h.polls (fun _ => hstart) hevery

theorem SeqKept.synSent (h : ConnOpening u) : SeqKept (u.transmit TCP_SYN 0 1) := by
  obtain ⟨hkept, hsyns, hfins⟩ := h.kept
  have hone : TcpEvent.syn (.sent TCP_SYN u.conn.seq 0) = 1 := TcpEvent.syn_one (by decide)
  have hfin : TcpEvent.fin (.sent TCP_SYN u.conn.seq 0) = 0 := TcpEvent.fin_zero (by decide)
  intro hevery
  apply (hkept hevery.2).transmit (.sent TCP_SYN u.conn.seq 0) rfl
  · rw [hone, hfin]
    rfl
  · rw [synsSent_cons, hone, hsyns]
  · rw [finsSent_cons, hfin, hfins]
    decide
  · exact fun _ => rfl
  · intro h1
    rw [hfin] at h1
    exact absurd h1 (by decide)

theorem SeqKept.synUnsent (h : ConnOpening u) : SeqKept ((u.log (.unsent TCP_SYN)).put { u.conn with active := false }) := by
  obtain ⟨hkept, hsyns, hfins⟩ := h.kept
  intro hevery
  have hinv : SeqInv (u.log (.unsent TCP_SYN)) := (hkept hevery.2).log (uncounted_unsent TCP_SYN) trivial fun _ _ harr => by cases harr
  apply hinv.put (c := { u.conn with active := false }) rfl
  · exact id
  · exact hinv.up
  · exact fun _ => rfl
  · exact fun _ hactive => Bool.noConfusion hactive
  · exact hinv.acked
  · intro hone
    have hzero : finsSent (.unsent TCP_SYN :: u.events) = 0 := (uncounted_unsent TCP_SYN).fins.trans hfins
    rw [show finsSent (u.log (.unsent TCP_SYN)).events = 0 from hzero] at hone
    exact absurd hone (by decide)

theorem SeqKept.chunk (h : SeqKept v) (len : ℕ) (hstate : v.conn.state ≠ .synSent) :
    SeqKept (v.transmit (TCP_ACK ||| TCP_PSH) len (UInt32.ofNat len)) := by
  intro hevery
  have hinv := h hevery.2
  have hsyn : TcpEvent.syn (.sent (TCP_ACK ||| TCP_PSH) v.conn.seq len) = 0 := TcpEvent.syn_zero (by decide)
  have hfin : TcpEvent.fin (.sent (TCP_ACK ||| TCP_PSH) v.conn.seq len) = 0 := TcpEvent.fin_zero (by decide)
  apply hinv.transmit (.sent (TCP_ACK ||| TCP_PSH) v.conn.seq len) rfl
  · rw [hsyn, hfin, Nat.zero_add, Nat.add_zero]
    rfl
  · rw [synsSent_cons, hsyn, Nat.zero_add]
    exact hinv.syns
  · rw [finsSent_cons, hfin, Nat.zero_add]
    exact hinv.fins
  · exact fun hs => absurd hs hstate
  · intro hone
    rw [hfin] at hone
    exact absurd hone (by decide)

theorem SeqKept.finSent (h : ConnClosing v state u) (hv : SeqKept v) :
    SeqKept (u.transmit (TCP_FIN ||| TCP_ACK) 0 1) := by
  intro hevery
  have hp := h.pending hv hevery.2
  have hone : TcpEvent.fin (.sent (TCP_FIN ||| TCP_ACK) u.conn.seq 0) = 1 := TcpEvent.fin_one (by decide)
  have hsyn : TcpEvent.syn (.sent (TCP_FIN ||| TCP_ACK) u.conn.seq 0) = 0 := TcpEvent.syn_zero (by decide)
  apply hp.inv.transmit (.sent (TCP_FIN ||| TCP_ACK) u.conn.seq 0) rfl
  · rw [hsyn, hone]
    rfl
  · rw [synsSent_cons, hsyn, Nat.zero_add]
    exact hp.inv.syns
  · rw [finsSent_cons, hone, hp.fins]
  · exact fun _ => rfl
  · exact fun _ => ⟨hp.fins, hp.active, hp.state.imp id fun hs => .inr (.inr hs)⟩

theorem SeqKept.move (h : SeqKept v) (hmove : ConnMove v w) : SeqKept w := by
  cases hmove with
  | poll _ hpoll => exact h.poll hpoll
  | opened _ hu => exact hu.kept.1
  | synSent u hu => exact SeqKept.synSent hu
  | synUnsent u hu => exact SeqKept.synUnsent hu
  | chunk len hstate => exact h.chunk len hstate
  | chunkUnsent => exact fun hevery => (h hevery.2).log (uncounted_unsent _) trivial fun _ _ harr => by cases harr
  | closing state _ hu => exact fun hevery => (hu.pending h hevery).inv
  | finSent state u hu => exact SeqKept.finSent hu h
  | finUnsent state u hu =>
    intro hevery
    have hfin : has (TCP_FIN ||| TCP_ACK) TCP_FIN ≠ true := hevery.1
    exact absurd (by decide) hfin
  | gaveUp => exact fun hevery => (h hevery.2).gaveUp hevery.1
  | read k =>
    intro hevery
    have hlog : SeqInv (v.log (.returned (v.conn.rxBuf.take k))) := (h hevery.2).log (uncounted_returned _) trivial fun _ _ harr => by cases harr
    exact hlog.put_same (c := { v.conn with rxBuf := v.conn.rxBuf.drop k }) rfl rfl rfl

theorem seqInv_start (mac : Mac) (ticks : UInt64) (world : List Arrival) (i : Conn) : SeqInv ((netInit mac ticks world).view i) where
  seq := rfl
  history := trivial
  syns := Nat.zero_le _
  fins := Nat.zero_le _
  waiting _ := rfl
  up hs := absurd rfl hs.2
  arrivedUp _ _ hmem := absurd hmem List.not_mem_nil
  closed _ := rfl
  finishing hone := absurd hone Nat.zero_ne_one
  acked := by rintro (hs | hs) <;> cases hs
  inactive hone := absurd hone Nat.zero_ne_one
  lastFin _ _ hmem := absurd hmem List.not_mem_nil

theorem SeqInv.sequenced (h : SeqInv v) : Sequenced v where
  seq := h.seq
  history := h.history
  syns := h.syns
  fins := h.fins
  established hs hc := h.up ⟨hs, hc⟩
  finAcked := by
    rintro (hs | hs | ⟨hs, hfins⟩)
    · exact h.acked (.inl hs)
    · exact h.acked (.inr hs)
    · exact h.inactive hfins (h.closed hs)

/-- In every run, a connection that is answered numbers what it sends without a gap, and its
states follow the acknowledgements. -/
theorem tcp_sequenced (mac : Mac) (ticks : UInt64) (world : List Arrival) (n : ℕ) (calls : List Call) (i : Conn)
    (hanswered : Every (Answered ((runCalls n calls (netInit mac ticks world)).2.history i).isn)
      ((runCalls n calls (netInit mac ticks world)).2.events i)) :
    Sequenced ((runCalls n calls (netInit mac ticks world)).2.view i) := by
  have hmoves := runCalls_view n calls (netInit mac ticks world) i
  have hkept := invariant_of_moves (I := SeqKept) (fun _ _ hu hmove => hu.move hmove) hmoves fun _ => seqInv_start mac ticks world i
  exact (hkept hanswered).sequenced

end Runs

/-! ### A close -/

def connectAndClose : List Call := [.tcpConnect peerIp 80, .tcpClose firstConn]

/-- The peer acknowledges the FIN, number 1001, with its own. -/
def finAnswered : List Bytes := [peerArp, peerFrame 5000 1001 (TCP_SYN ||| TCP_ACK) [], peerFrame 5001 1002 (TCP_FIN ||| TCP_ACK) []]

theorem events_finAnswered : (after connectAndClose finAnswered).events firstConn =
    [.gaveUp ⟨false, .closed, peerIp, 49152, 80, 1002, 5002, [], false⟩, .sent TCP_ACK 1002 0,
      .arrived ⟨true, .finWait1, peerIp, 49152, 80, 1002, 5001, [], false⟩ ⟨80, 49152, 5001, 1002, TCP_FIN ||| TCP_ACK, []⟩,
      .sent (TCP_FIN ||| TCP_ACK) 1001 0, .sent TCP_ACK 1001 0, .arrived waitingConn synAck, .sent TCP_SYN 1000 0] := by
  decide +kernel

theorem isn_finAnswered : ((after connectAndClose finAnswered).history firstConn).isn = 1000 := by decide +kernel

theorem answered_finAnswered : Every (Answered ((after connectAndClose finAnswered).history firstConn).isn)
    ((after connectAndClose finAnswered).events firstConn) := by
  have hfin : Answers 1000 [.sent (TCP_FIN ||| TCP_ACK) 1001 0, .sent TCP_ACK 1001 0, .arrived waitingConn synAck, .sent TCP_SYN 1000 0]
      ⟨true, .finWait1, peerIp, 49152, 80, 1002, 5001, [], false⟩ ⟨80, 49152, 5001, 1002, TCP_FIN ||| TCP_ACK, []⟩ := by
    refine ⟨?_, ?_⟩
    · exact TcpState.noConfusion
    · exact fun _ _ => ⟨by decide, rfl, by decide⟩
  have hsynAck : Answers 1000 [.sent TCP_SYN 1000 0] waitingConn synAck := by
    refine ⟨?_, ?_⟩
    · exact fun _ _ _ => ⟨rfl, by decide⟩
    · rintro (hs | hs) <;> cases hs
  have hclosed : TcpState.closed ≠ .finWait1 ∧ TcpState.closed ≠ .lastAck := by decide
  rw [events_finAnswered, isn_finAnswered]
  exact And.intro hclosed (And.intro trivial (And.intro hfin (And.intro trivial (And.intro trivial (And.intro hsynAck
    (And.intro trivial trivial))))))

theorem tcp_sequenced_finAnswered : Sequenced ((after connectAndClose finAnswered).view firstConn) := by
  have hrun := tcp_sequenced ourMac 0 (hearing finAnswered) finAnswered.length connectAndClose firstConn
  rw [← after_eq] at hrun
  exact hrun answered_finAnswered

/-- A segment that was under way when the FIN was sent acknowledges only the SYN. -/
def staleAck : List Bytes := [peerArp, peerFrame 5000 1001 (TCP_SYN ||| TCP_ACK) [], peerFrame 5001 1001 TCP_ACK []]

theorem not_sequenced_staleAck : ¬ Sequenced ((after connectAndClose staleAck).view firstConn) := by
  intro h
  have hseq : ((after connectAndClose staleAck).view firstConn).conn.seq = 1001 := by decide +kernel
  have hnext : nextSeq ((after connectAndClose staleAck).view firstConn).isn ((after connectAndClose staleAck).view firstConn).events =
      1002 := by
    decide +kernel
  have heq := h.seq
  rw [hseq, hnext] at heq
  exact absurd heq (by decide)

/-- The number of the connection goes back. -/
theorem not_sequenced : ¬ ∀ (mac : Mac) (ticks : UInt64) (world : List Arrival) (n : ℕ) (calls : List Call) (i : Conn),
    Sequenced ((runCalls n calls (netInit mac ticks world)).2.view i) := by
  intro h
  have hrun := h ourMac 0 (hearing staleAck) staleAck.length connectAndClose firstConn
  rw [← after_eq] at hrun
  exact not_sequenced_staleAck hrun

end Tg11Kernel.Net
