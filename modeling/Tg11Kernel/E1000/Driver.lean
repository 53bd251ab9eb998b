import Tg11Kernel.Lib.Circle

/-! The network card's driver beside the card. The two share a ring of descriptors for each
direction, of which the card takes those from its head on before the tail that the driver
stores. Every store of the driver is a step of its own, so that the card may move between
any two of them; `accepted`, `wire`, `received` and `returned` record what went by. -/

namespace Tg11Kernel.E1000

open Lib Function

def TXD_CMD_EOP : UInt8 := 0x01
def TXD_CMD_IFCS : UInt8 := 0x02
def TXD_CMD_RS : UInt8 := 0x08
def TXD_STAT_DD : UInt8 := 0x01
def RXD_STAT_DD : UInt8 := 0x01
def RXD_STAT_EOP : UInt8 := 0x02
def RX_BUF_SIZE : ℕ := 2048

/-- A descriptor by its index, of `NUM_TX_DESC` or `NUM_RX_DESC`. -/
abbrev Slot := Fin 32

instance neZeroSlots : NeZero 32 := ⟨by decide⟩

/-- A buffer is a page. -/
abbrev Buffer := Block 4096

abbrev Frame := List UInt8

theorem and_or_done (a b : UInt8) : (a ||| (1 ||| b)) &&& 1 ≠ 0 := by
  intro h
  have hbit := congrArg (fun x : UInt8 => x.toBitVec.getLsbD 0) h
  simp at hbit

theorem or_done (a : UInt8) : (a ||| 1) &&& 1 ≠ 0 := by
  have h := and_or_done a 0
  simpa using h

/-! ### Sending -/

/-- `struct e1000_tx_desc`. An address is the slot whose buffer it is the address of. -/
structure TxDesc where
  addr : Option Slot
  length : UInt16
  cso : UInt8
  cmd : UInt8
  status : UInt8
  css : UInt8
  special : UInt16

def TxDesc.blank : TxDesc := ⟨none, 0, 0, 0, 0, 0, 0⟩

/-- What `e1000_send` waits for to end. -/
def TxDesc.Busy (d : TxDesc) : Prop := d.status &&& TXD_STAT_DD = 0 ∧ d.cmd ≠ 0

instance (d : TxDesc) : Decidable d.Busy := inferInstanceAs (Decidable (_ ∧ _))

/-- A store of `e1000_send` to the current slot. -/
inductive TxStore
  | byte (i : ℕ) (b : UInt8)
  | addr
  | length (v : UInt16)
  | cmd (v : UInt8)
  | status (v : UInt8)
  | cso (v : UInt8)
  | css (v : UInt8)
  | special (v : UInt16)

def TxStore.on (cur : Slot) : TxDesc × Buffer → TxStore → TxDesc × Buffer
  | (d, buf), .byte i b => (d, buf.set i b)
  | (d, buf), .addr => ({ d with addr := some cur }, buf)
  | (d, buf), .length v => ({ d with length := v }, buf)
  | (d, buf), .cmd v => ({ d with cmd := v }, buf)
  | (d, buf), .status v => ({ d with status := v }, buf)
  | (d, buf), .cso v => ({ d with cso := v }, buf)
  | (d, buf), .css v => ({ d with css := v }, buf)
  | (d, buf), .special v => ({ d with special := v }, buf)

def byteStores (data : Frame) : List TxStore := data.zipIdx.map fun p => .byte p.2 p.1

def descStores (length : ℕ) : List TxStore :=
  [.addr, .length (UInt16.ofNat length), .cmd (TXD_CMD_EOP ||| TXD_CMD_IFCS ||| TXD_CMD_RS), .status 0, .cso 0, .css 0, .special 0]

/-- Where `e1000_send` is. -/
inductive Sending
  | idle
  | waits (data : Frame)
  | stores (data : Frame) (todo : List TxStore)
  | kicks (data : Frame)

/-- The transmit ring: `cur` is `tx_cur`, `head` and `tail` are `TDH` and `TDT`. -/
structure Tx where
  descs : Slot → TxDesc
  bufs : Slot → Buffer
  cur : Slot
  head : Slot
  tail : Slot
  sending : Sending
  accepted : List Frame
  wire : List Frame

namespace Tx

def init : Tx := ⟨fun _ => .blank, fun _ => Block.zero, 0, 0, 0, .idle, [], []⟩

/-- The frame that a descriptor stands for. -/
def frame (tx : Tx) (j : Slot) : Frame :=
  match (tx.descs j).addr with
  | some k => (tx.bufs k).firstBytes (tx.descs j).length.toNat
  | none => []

def store (tx : Tx) (op : TxStore) : Tx :=
  let r := op.on tx.cur (tx.descs tx.cur, tx.bufs tx.cur)
  { tx with descs := update tx.descs tx.cur r.1, bufs := update tx.bufs tx.cur r.2 }

/-- A call of `e1000_send`. -/
def send (up : Bool) (data : Frame) (tx : Tx) : Option Tx :=
  match tx.sending with
  | .idle => some (if !up || data.length > 1518 || data.length == 0 then tx else { tx with sending := .waits data })
  | _ => none

/-- The next step of the call. -/
def sendStep (tx : Tx) : Option Tx :=
  match tx.sending with
  | .idle => none
  | .waits data =>
    some (if (tx.descs tx.cur).Busy then tx else { tx with sending := .stores data (byteStores data ++ descStores data.length) })
  | .stores data (op :: todo) => some { tx.store op with sending := .stores data todo }
  | .stores data [] => some { tx with cur := tx.cur + 1, sending := .kicks data }
  | .kicks data => some { tx with tail := tx.cur, sending := .idle, accepted := tx.accepted ++ [data] }

/-- The card sends the frame at the head and reports it when asked to. -/
def sendHead (tx : Tx) : Tx :=
  let d := tx.descs tx.head
  let status := if d.cmd &&& TXD_CMD_RS = 0 then d.status else d.status ||| TXD_STAT_DD
  { tx with
    wire := tx.wire ++ [tx.frame tx.head]
    descs := update tx.descs tx.head { d with status := status }
    head := tx.head + 1 }

def transmit (tx : Tx) : Option Tx := if tx.head = tx.tail then none else some tx.sendHead

end Tx

/-! ### Receiving -/

/-- `struct e1000_rx_desc`, without the fields that nobody reads. -/
structure RxDesc where
  addr : Slot
  length : UInt16
  status : UInt8

/-- The card has filled the buffer. -/
def RxDesc.Done (d : RxDesc) : Prop := d.status &&& RXD_STAT_DD ≠ 0

instance (d : RxDesc) : Decidable d.Done := inferInstanceAs (Decidable (_ ≠ _))

/-- Where `e1000_poll_rx` is. -/
inductive Polling
  | idle
  | measures (bufSize : ℕ)
  | copies (copyLen : ℕ) (dst : Frame)
  | advances (dst : Frame)
  | kicks (dst : Frame) (oldRx : Slot)

/-- The receive ring: `cur` is `rx_cur`, `head` and `tail` are `RDH` and `RDT`. -/
structure Rx where
  descs : Slot → RxDesc
  bufs : Slot → Buffer
  cur : Slot
  head : Slot
  tail : Slot
  polling : Polling
  received : List Frame
  returned : List Frame

namespace Rx

def init : Rx := ⟨fun i => ⟨i, 0, 0⟩, fun _ => Block.zero, 0, 0, 31, .idle, [], []⟩

def frame (rx : Rx) (j : Slot) : Frame := (rx.bufs (rx.descs j).addr).firstBytes (rx.descs j).length.toNat

/-- A call of `e1000_poll_rx`. -/
def poll (up : Bool) (bufSize : ℕ) (rx : Rx) : Option Rx :=
  match rx.polling with
  | .idle => some (if !up || ¬ (rx.descs rx.cur).Done then rx else { rx with polling := .measures bufSize })
  | _ => none

/-- The next step of the call. -/
def pollStep (rx : Rx) : Option Rx :=
  match rx.polling with
  | .idle => none
  | .measures bufSize => some { rx with polling := .copies (min (rx.descs rx.cur).length.toNat bufSize) [] }
  | .copies copyLen dst =>
    some (if dst.length < copyLen then { rx with polling := .copies copyLen (dst ++ [(rx.bufs rx.cur).get dst.length]) }
      else { rx with descs := update rx.descs rx.cur { rx.descs rx.cur with status := 0 }, polling := .advances dst })
  | .advances dst => some { rx with cur := rx.cur + 1, polling := .kicks dst rx.cur }
  | .kicks dst oldRx => some { rx with tail := oldRx, polling := .idle, returned := rx.returned ++ [dst] }

/-- The card fills the buffer at the head. -/
def fillHead (f : Frame) (rx : Rx) : Rx :=
  let d := rx.descs rx.head
  { rx with
    bufs := update rx.bufs d.addr ((rx.bufs d.addr).store f)
    descs := update rx.descs rx.head { d with length := UInt16.ofNat f.length, status := d.status ||| (RXD_STAT_DD ||| RXD_STAT_EOP) }
    head := rx.head + 1
    received := rx.received ++ [f] }

def receive (f : Frame) (rx : Rx) : Option Rx :=
  if rx.head = rx.tail ∨ RX_BUF_SIZE < f.length then none else some (rx.fillHead f)

end Rx

/-! ### Both -/

structure E1000 where
  up : Bool
  tx : Tx
  rx : Rx

/-- What `e1000_init` leaves. -/
def e1000Init : E1000 := ⟨true, .init, .init⟩

inductive Event
  | send (data : Frame)
  | sendStep
  | poll (bufSize : ℕ)
  | pollStep
  | transmit
  | receive (f : Frame)

def step (s : E1000) : Event → Option E1000
  | .send data => (s.tx.send s.up data).map fun tx => { s with tx := tx }
  | .sendStep => s.tx.sendStep.map fun tx => { s with tx := tx }
  | .poll bufSize => (s.rx.poll s.up bufSize).map fun rx => { s with rx := rx }
  | .pollStep => s.rx.pollStep.map fun rx => { s with rx := rx }
  | .transmit => s.tx.transmit.map fun tx => { s with tx := tx }
  | .receive f => (s.rx.receive f).map fun rx => { s with rx := rx }

def run : E1000 → List Event → Option E1000 := List.foldlM step

end Tg11Kernel.E1000
