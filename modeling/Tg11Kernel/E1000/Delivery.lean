import Tg11Kernel.E1000.Transmit
import Tg11Kernel.E1000.Receive

/-! What the rings deliver. While every tail that `e1000_send` stores stays off the card's
head, and every buffer that `e1000_poll_rx` is given holds the frame that waits, the frames
go by once each and in order. A tail that meets the head makes a full ring look empty: the
card takes nothing, and the next call waits for a descriptor that is not the card's. -/

namespace Tg11Kernel.E1000

open Lib

/-- The rings lose nothing: what went out is what was accepted, but for the frames that wait
between the card's head and the tail; what was returned is what came in, but for those that
wait behind the tail; each descriptor has one owner; and a call waits only for the card. -/
structure Lossless (s : E1000) : Prop where
  sent : s.tx.accepted = s.tx.wire ++ (between s.tx.head s.tx.tail).map s.tx.frame
  received : s.rx.received = s.rx.returned ++ (between (s.rx.tail + 1) s.rx.head).map s.rx.frame
  found : s.rx.polling = .idle → ((s.rx.descs s.rx.cur).Done ↔ s.rx.returned ≠ s.rx.received)
  txOwner : ∀ j ∈ between s.tx.head s.tx.tail, (s.tx.descs j).Busy ∧ ¬ s.tx.Writes j
  rxOwner : ∀ j ∈ between s.rx.head s.rx.tail, ¬ (s.rx.descs j).Done ∧ ¬ s.rx.Reads j
  waits : ∀ data, s.tx.sending = .waits data → (s.tx.descs s.tx.cur).Busy → s.tx.cur ∈ between s.tx.head s.tx.tail

/-- The tail that is stored stays off the card's head, and the buffer holds the frame. -/
def Room (s : E1000) : Event → Prop
  | .sendStep => ∀ data, s.tx.sending = .kicks data → s.tx.cur ≠ s.tx.head
  | .pollStep => ∀ n, s.rx.polling = .measures n → (s.rx.descs s.rx.cur).length.toNat ≤ n
  | _ => True

instance (s : E1000) : DecidablePred (Room s) := fun e =>
  match e with
  | .sendStep =>
    match h : s.tx.sending with
    | .kicks data => decidable_of_iff (s.tx.cur ≠ s.tx.head) ⟨fun hne _ _ => hne, fun hall => hall data h⟩
    | .idle => .isTrue fun _ hk => nomatch h ▸ hk
    | .waits _ => .isTrue fun _ hk => nomatch h ▸ hk
    | .stores _ _ => .isTrue fun _ hk => nomatch h ▸ hk
  | .pollStep =>
    match h : s.rx.polling with
    | .measures n => decidable_of_iff ((s.rx.descs s.rx.cur).length.toNat ≤ n)
        ⟨fun hle _ hm => Polling.measures.inj (h ▸ hm) ▸ hle, fun hall => hall n h⟩
    | .idle => .isTrue fun _ hm => nomatch h ▸ hm
    | .copies _ _ => .isTrue fun _ hm => nomatch h ▸ hm
    | .advances _ => .isTrue fun _ hm => nomatch h ▸ hm
    | .kicks _ _ => .isTrue fun _ hm => nomatch h ▸ hm
  | .send _ => .isTrue trivial
  | .poll _ => .isTrue trivial
  | .transmit => .isTrue trivial
  | .receive _ => .isTrue trivial

/-- Every step of a run has room. -/
def Roomy (s : E1000) : List Event → Prop
  | [] => True
  | e :: es => Room s e ∧ ∀ s', step s e = some s' → Roomy s' es

instance decidableRoomy : (events : List Event) → (s : E1000) → Decidable (Roomy s events)
  | [], _ => .isTrue trivial
  | e :: es, s =>
    match h : step s e with
    | none => decidable_of_iff (Room s e) ⟨fun hr => ⟨hr, fun _ hs => nomatch h ▸ hs⟩, And.left⟩
    | some t =>
      haveI := decidableRoomy es t
      decidable_of_iff (Room s e ∧ Roomy t es) ⟨fun hr => ⟨hr.1, fun _ hs => Option.some.inj (h ▸ hs) ▸ hr.2⟩, fun hr => ⟨hr.1, hr.2 t h⟩⟩

structure Sound (s : E1000) : Prop where
  tx : s.tx.Sound
  rx : s.rx.Sound

theorem Sound.step {s s' : E1000} {e : Event} (h : Sound s) (hroom : Room s e) (hs : step s e = some s') : Sound s' := by
  cases e with
  | send data =>
    obtain ⟨tx, hsend, rfl⟩ := Option.map_eq_some_iff.1 hs
    exact ⟨h.tx.send hsend, h.rx⟩
  | sendStep =>
    obtain ⟨tx, hsend, rfl⟩ := Option.map_eq_some_iff.1 hs
    exact ⟨h.tx.sendStep hroom hsend, h.rx⟩
  | poll bufSize =>
    obtain ⟨rx, hpoll, rfl⟩ := Option.map_eq_some_iff.1 hs
    exact ⟨h.tx, h.rx.poll hpoll⟩
  | pollStep =>
    obtain ⟨rx, hpoll, rfl⟩ := Option.map_eq_some_iff.1 hs
    exact ⟨h.tx, h.rx.pollStep hroom hpoll⟩
  | transmit =>
    obtain ⟨tx, hsend, rfl⟩ := Option.map_eq_some_iff.1 hs
    exact ⟨h.tx.transmit hsend, h.rx⟩
  | receive f =>
    obtain ⟨rx, hfill, rfl⟩ := Option.map_eq_some_iff.1 hs
    exact ⟨h.tx, h.rx.receive hfill⟩

theorem Sound.run {s s' : E1000} {events : List Event} (h : Sound s) (hroom : Roomy s events) (hs : run s events = some s') : Sound s' := by
  induction events generalizing s with
  | nil =>
    cases hs
    exact h
  | cons e es ih =>
    rw [E1000.run, List.foldlM_cons] at hs
    obtain ⟨t, hstep, hrest⟩ := Option.bind_eq_some_iff.1 hs
    exact ih (h.step hroom.1 hstep) (hroom.2 t hstep) hrest

theorem sound_e1000Init : Sound e1000Init := ⟨Tx.sound_init, Rx.sound_init⟩

theorem Sound.lossless {s : E1000} (h : Sound s) : Lossless s where
  sent := h.tx.sent
  received := h.rx.received
  found := h.rx.found
  txOwner j hj := by
    obtain ⟨data, hdata⟩ := h.tx.filled j hj
    exact ⟨hdata.busy, h.tx.not_writes hj⟩
  rxOwner j hj := ⟨h.rx.card j hj, h.rx.not_reads hj⟩
  waits data hphase hbusy := by
    have hat := h.tx.atTail
    rw [hphase] at hat
    exact absurd (hat.1 ▸ hbusy) hat.2.1

/-- With room for every step, every run loses nothing. -/
theorem lossless_of_roomy {events : List Event} {s : E1000} (hroom : Roomy e1000Init events) (hs : run e1000Init events = some s) :
    Lossless s :=
  (sound_e1000Init.run hroom hs).lossless

/-- A call of `e1000_send` with one byte, step by step. -/
def sendByte : List Event := .send [0] :: List.replicate 11 .sendStep

/-- One frame each way. -/
theorem lossless_example : ∃ s, run e1000Init (sendByte ++ [.transmit, .receive [7], .poll 1600] ++ List.replicate 5 .pollStep) = some s ∧
    s.tx.wire = [[0]] ∧ s.rx.returned = [[7]] ∧ Lossless s := by
  have hlogs : (run e1000Init (sendByte ++ [.transmit, .receive [7], .poll 1600] ++ List.replicate 5 .pollStep)).map
      (fun s => (s.tx.wire, s.rx.returned)) = some ([[0]], [[7]]) := by
    decide +kernel
  obtain ⟨s, hs, hlog⟩ := Option.map_eq_some_iff.1 hlogs
  obtain ⟨hwire, hreturned⟩ := Prod.mk.inj hlog
  exact ⟨s, hs, hwire, hreturned, lossless_of_roomy (by decide) hs⟩

/-- After 32 frames that the card has not taken, the ring looks empty. -/
theorem not_lossless : ¬ ∀ events s, run e1000Init events = some s → Lossless s := by
  intro hall
  have hring : (run e1000Init (List.replicate 32 sendByte).flatten).map
      (fun s => (s.tx.accepted.length, s.tx.wire.length, s.tx.head, s.tx.tail)) = some (32, 0, 0, 0) := by
    decide +kernel
  obtain ⟨s, hs, hcounts⟩ := Option.map_eq_some_iff.1 hring
  simp only [Prod.mk.injEq] at hcounts
  obtain ⟨haccepted, hwire, hhead, htail⟩ := hcounts
  have hsent := congrArg List.length (hall _ s hs).sent
  rw [hhead, htail, between_self, List.map_nil, List.append_nil, haccepted, hwire] at hsent
  exact absurd hsent (by decide)

end Tg11Kernel.E1000
