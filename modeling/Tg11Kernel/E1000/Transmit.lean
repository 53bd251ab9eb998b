import Tg11Kernel.E1000.Driver

/-! What holds of the transmit ring while every tail that is stored stays off the card's
head: the slots before the tail ask for the frames accepted and not sent, the slot at the
tail is free for the next call, and no other slot is waited for. -/

namespace Tg11Kernel.E1000

open Lib Function

/-- A descriptor and its buffer ask the card to send a frame. -/
structure Filled (j : Slot) (data : Frame) (r : TxDesc × Buffer) : Prop where
  addr : r.1.addr = some j
  pending : r.1.status &&& TXD_STAT_DD = 0
  reports : r.1.cmd &&& TXD_CMD_RS ≠ 0
  bytes : r.2.firstBytes r.1.length.toNat = data

variable {data : Frame} {j : Slot}

theorem foldl_byteStores (cur : Slot) (hlen : data.length ≤ 4096) (r : TxDesc × Buffer) :
    ((byteStores data).foldl (TxStore.on cur) r).2.firstBytes data.length = data := by
  induction data using List.reverseRecOn with
  | nil => rfl
  | append_singleton data b ih =>
    rw [List.length_append, List.length_singleton] at hlen
    have hrest := ih (by omega)
    simp only [byteStores, List.zipIdx_append, List.map_append, List.foldl_append] at hrest ⊢
    rw [List.length_append, List.length_singleton, Block.firstBytes_succ]
    simp only [List.zipIdx_cons, List.zipIdx_nil, List.map_cons, List.map_nil, List.foldl_cons, List.foldl_nil, TxStore.on, Nat.zero_add]
    rw [Block.firstBytes_set, hrest, Block.get_set_self _ _ (by omega)]

theorem filled_stores (cur : Slot) (hlen : data.length ≤ 1518) (r : TxDesc × Buffer) :
    Filled cur data ((byteStores data ++ descStores data.length).foldl (TxStore.on cur) r) := by
  have hbytes := foldl_byteStores cur (by omega : data.length ≤ 4096) r
  rw [List.foldl_append]
  generalize (byteStores data).foldl (TxStore.on cur) r = r' at hbytes ⊢
  have hval : (UInt16.ofNat data.length).toNat = data.length := UInt16.toNat_ofNat_of_lt' (by show _ < 65536; omega)
  obtain ⟨d, buf⟩ := r'
  simp only [descStores, List.foldl_cons, List.foldl_nil, TxStore.on]
  have hreports : (TXD_CMD_EOP ||| TXD_CMD_IFCS ||| TXD_CMD_RS) &&& TXD_CMD_RS ≠ 0 := by decide
  refine ⟨rfl, by simp, hreports, ?_⟩
  rw [hval]
  exact hbytes

theorem Filled.busy {r : TxDesc × Buffer} (h : Filled j data r) : r.1.Busy := by
  refine ⟨h.pending, fun hcmd => h.reports ?_⟩
  rw [hcmd]
  decide

namespace Tx

variable {tx tx' : Tx}

/-- The descriptor and the buffer of a slot. -/
def slot (tx : Tx) (j : Slot) : TxDesc × Buffer := (tx.descs j, tx.bufs j)

/-- The slots that the card has to send. -/
def pending (tx : Tx) : List Slot := between tx.head tx.tail

/-- What holds of the slot at the tail where the call is. -/
def AtTail (cur tail : Slot) (r : TxDesc × Buffer) : Sending → Prop
  | .idle => cur = tail ∧ ¬ r.1.Busy
  | .waits data => cur = tail ∧ ¬ r.1.Busy ∧ data.length ≤ 1518
  | .stores data todo => cur = tail ∧ Filled tail data (todo.foldl (TxStore.on tail) r)
  | .kicks data => cur = tail + 1 ∧ Filled tail data r

/-- The frames of the pending slots are those accepted and not sent. -/
structure Sound (tx : Tx) : Prop where
  sent : tx.accepted = tx.wire ++ tx.pending.map tx.frame
  filled : ∀ j ∈ tx.pending, ∃ data, Filled j data (tx.slot j)
  free : ∀ j, j ∉ tx.pending → j ≠ tx.tail → ¬ (tx.descs j).Busy
  atTail : AtTail tx.cur tx.tail (tx.slot tx.tail) tx.sending

variable {j : Slot} {data : Frame}

theorem frame_of_filled (h : Filled j data (tx.slot j)) : tx.frame j = data := by
  have haddr : (tx.descs j).addr = some j := h.addr
  rw [frame, haddr]
  exact h.bytes

theorem frame_congr (h : Filled j data (tx.slot j)) (hj : tx'.slot j = tx.slot j) : tx'.frame j = tx.frame j := by
  rw [frame_of_filled h, frame_of_filled (hj ▸ h)]

theorem sound_init : Sound .init := by
  have hblank : ¬ TxDesc.blank.Busy := by decide
  exact ⟨rfl, by simp [pending, init], fun _ _ _ => hblank, rfl, hblank⟩

section

variable (h : Sound tx)
include h

variable {data : Frame}

theorem Sound.send {up : Bool} (hs : tx.send up data = some tx') : Sound tx' := by
  unfold Tx.send at hs
  cases hphase : tx.sending with
  | idle =>
    rw [hphase] at hs
    obtain ⟨rfl⟩ := hs
    split_ifs with hbad
    · exact h
    · obtain ⟨hcur, hfree⟩ : tx.cur = tx.tail ∧ ¬ (tx.descs tx.tail).Busy := by
        have hat := h.atTail
        rwa [hphase] at hat
      simp only [Bool.or_eq_true, decide_eq_true_eq, not_or] at hbad
      exact ⟨h.sent, h.filled, h.free, hcur, hfree, by omega⟩
  | waits data => rw [hphase] at hs; cases hs
  | stores data todo => rw [hphase] at hs; cases hs
  | kicks data => rw [hphase] at hs; cases hs

/-- A store goes to the slot at the tail, which is not pending. -/
theorem Sound.store {op : TxStore} {todo : List TxStore} (hphase : tx.sending = .stores data (op :: todo)) :
    Sound { tx.store op with sending := .stores data todo } := by
  obtain ⟨hcur, hfill⟩ : tx.cur = tx.tail ∧ Filled tx.tail data ((op :: todo).foldl (TxStore.on tx.tail) (tx.slot tx.tail)) := by
    have hat := h.atTail
    rwa [hphase] at hat
  have hother : ∀ j, j ≠ tx.tail → (tx.store op).slot j = tx.slot j := by
    intro j hj
    simp only [slot, Tx.store, hcur]
    rw [update_of_ne hj, update_of_ne hj]
  have hpending : ∀ j ∈ tx.pending, j ≠ tx.tail := fun j hj => ne_of_mem_of_not_mem hj (tail_not_mem_between _ _)
  refine ⟨?_, ?_, ?_, hcur, ?_⟩
  · refine h.sent.trans (congrArg (tx.wire ++ ·) (List.map_congr_left fun j hj => ?_))
    obtain ⟨data', hdata⟩ := h.filled j hj
    exact (frame_congr hdata (hother j (hpending j hj))).symm
  · intro j hj
    obtain ⟨data', hdata⟩ := h.filled j hj
    exact ⟨data', (hother j (hpending j hj)) ▸ hdata⟩
  · intro j hj hne
    have hdesc : (tx.store op).descs j = tx.descs j := congrArg Prod.fst (hother j hne)
    show ¬ ((tx.store op).descs j).Busy
    rw [hdesc]
    exact h.free j hj hne
  · have hself : (tx.store op).slot tx.tail = op.on tx.tail (tx.slot tx.tail) := by
      simp only [slot, Tx.store, hcur, update_self]
    show Filled tx.tail data (todo.foldl (TxStore.on tx.tail) ((tx.store op).slot tx.tail))
    rw [hself]
    exact hfill

/-- A tail that stays off the head makes the slot it passes the last one pending. -/
theorem Sound.kick (hphase : tx.sending = .kicks data) (hroom : tx.cur ≠ tx.head) :
    Sound { tx with tail := tx.cur, sending := .idle, accepted := tx.accepted ++ [data] } := by
  obtain ⟨hcur, hfill⟩ : tx.cur = tx.tail + 1 ∧ Filled tx.tail data (tx.slot tx.tail) := by
    have hat := h.atTail
    rwa [hphase] at hat
  have hpending : between tx.head tx.cur = tx.pending ++ [tx.tail] := by
    rw [hcur] at hroom ⊢
    exact between_succ hroom
  have hfree : ∀ j, j ∉ between tx.head tx.cur → ¬ (tx.descs j).Busy := by
    intro j hj
    rw [hpending, List.mem_append, List.mem_singleton, not_or] at hj
    exact h.free j hj.1 hj.2
  refine ⟨?_, ?_, fun j hj _ => hfree j hj, rfl, hfree _ (tail_not_mem_between _ _)⟩
  · show tx.accepted ++ [data] = tx.wire ++ (between tx.head tx.cur).map tx.frame
    rw [hpending, List.map_append, List.map_singleton, frame_of_filled hfill, h.sent, List.append_assoc]
  · intro j hj
    change j ∈ between tx.head tx.cur at hj
    rw [hpending, List.mem_append, List.mem_singleton] at hj
    rcases hj with hj | rfl
    · exact h.filled j hj
    · exact ⟨data, hfill⟩

theorem Sound.sendStep (hroom : ∀ data, tx.sending = .kicks data → tx.cur ≠ tx.head) (hs : tx.sendStep = some tx') :
    Sound tx' := by
  unfold Tx.sendStep at hs
  have hat := h.atTail
  cases hphase : tx.sending with
  | idle => rw [hphase] at hs; cases hs
  | waits data =>
    rw [hphase] at hs hat
    obtain ⟨hcur, hfree, hlen⟩ := hat
    have hbusy : ¬ (tx.descs tx.cur).Busy := by
      rw [hcur]
      exact hfree
    simp only [if_neg hbusy] at hs
    obtain ⟨rfl⟩ := hs
    exact ⟨h.sent, h.filled, h.free, hcur, filled_stores tx.tail hlen _⟩
  | stores data todo =>
    cases todo with
    | nil =>
      rw [hphase] at hs hat
      obtain ⟨rfl⟩ := hs
      obtain ⟨hcur, hfill⟩ := hat
      exact ⟨h.sent, h.filled, h.free, congrArg (· + 1) hcur, hfill⟩
    | cons op todo =>
      rw [hphase] at hs
      obtain ⟨rfl⟩ := hs
      exact h.store hphase
  | kicks data =>
    rw [hphase] at hs
    obtain ⟨rfl⟩ := hs
    exact h.kick hphase (hroom data hphase)

/-- The card takes the first pending slot and marks its descriptor. -/
theorem Sound.sendHead (hne : tx.head ≠ tx.tail) : Sound tx.sendHead := by
  have hpending : tx.pending = tx.head :: tx.sendHead.pending := between_of_ne hne
  have hnodup : tx.head ∉ tx.sendHead.pending := by
    have hnd := nodup_between tx.head tx.tail
    rw [between_of_ne hne] at hnd
    exact (List.nodup_cons.1 hnd).1
  have hother : ∀ j, j ≠ tx.head → tx.sendHead.slot j = tx.slot j := fun j hj => Prod.ext (update_of_ne hj _ _) rfl
  have hrest : ∀ j ∈ tx.sendHead.pending, ∃ data, Filled j data (tx.slot j) :=
    fun j hj => h.filled j (hpending ▸ List.mem_cons_of_mem _ hj)
  refine ⟨?_, ?_, ?_, ?_⟩
  · show tx.accepted = tx.wire ++ [tx.frame tx.head] ++ tx.sendHead.pending.map tx.sendHead.frame
    rw [h.sent, hpending, List.map_cons, List.append_assoc, List.singleton_append]
    refine congrArg (tx.wire ++ ·) (congrArg (tx.frame tx.head :: ·) (List.map_congr_left fun j hj => ?_))
    obtain ⟨data, hdata⟩ := hrest j hj
    exact (frame_congr hdata (hother j (ne_of_mem_of_not_mem hj hnodup))).symm
  · intro j hj
    obtain ⟨data, hdata⟩ := hrest j hj
    exact ⟨data, (hother j (ne_of_mem_of_not_mem hj hnodup)).symm ▸ hdata⟩
  · intro j hj hjt
    by_cases hjh : j = tx.head
    · obtain ⟨data, hdata⟩ := h.filled tx.head (head_mem_between hne)
      have hstatus : (tx.sendHead.descs j).status = (tx.descs tx.head).status ||| TXD_STAT_DD := by
        rw [hjh]
        simp only [Tx.sendHead, update_self]
        exact if_neg hdata.reports
      intro hbusy
      exact or_done (tx.descs tx.head).status (hstatus ▸ hbusy.1)
    · have hdesc : tx.sendHead.descs j = tx.descs j := congrArg Prod.fst (hother j hjh)
      rw [hdesc]
      exact h.free j (fun hmem => (List.mem_cons.1 (hpending ▸ hmem)).elim hjh hj) hjt
  · show AtTail tx.cur tx.tail (tx.sendHead.slot tx.tail) tx.sending
    rw [hother tx.tail (Ne.symm hne)]
    exact h.atTail

theorem Sound.transmit (hs : tx.transmit = some tx') : Sound tx' := by
  unfold Tx.transmit at hs
  split_ifs at hs with hne
  obtain ⟨rfl⟩ := hs
  exact h.sendHead hne

end

end Tx

/-- The slot that a call of `e1000_send` is writing. -/
def Tx.Writes (tx : Tx) (j : Slot) : Prop :=
  match tx.sending with
  | .stores _ _ => j = tx.cur
  | .kicks _ => j + 1 = tx.cur
  | _ => False

theorem Tx.Sound.not_writes {tx : Tx} (h : tx.Sound) (hj : j ∈ tx.pending) : ¬ tx.Writes j := by
  have hne : j ≠ tx.tail := ne_of_mem_of_not_mem hj (tail_not_mem_between _ _)
  have hat := h.atTail
  unfold Tx.Writes
  cases hphase : tx.sending with
  | idle => exact not_false
  | waits data => exact not_false
  | stores data todo =>
    rw [hphase] at hat
    exact fun heq => hne (heq.trans hat.1)
  | kicks data =>
    rw [hphase] at hat
    exact fun heq => hne (add_right_cancel (heq.trans hat.1))

end Tg11Kernel.E1000
