import Tg11Kernel.Net.Query

/-! DNS responses. A message is a header, questions and three sections of records; a name in it
is a list of labels that ends with an empty label or with a pointer. The parser sees the first
bytes of a message. It stays in step with the records as long as they are complete, and is
behind the end of the buffer after the first one that is not. -/

namespace Tg11Kernel.Net

open Lib Exec

/-! ### Messages -/

/-- How a name ends. -/
inductive NameEnd where
  | root
  | pointer (high low : UInt8) (h : high &&& 0xC0 = 0xC0)

def NameEnd.bytes : NameEnd → Bytes
  | .root => [0]
  | .pointer high low _ => [high, low]

structure DnsName where
  labels : List Bytes
  stop : NameEnd
  valid : ∀ label ∈ labels, label ≠ [] ∧ label.length ≤ 63

def DnsName.bytes (name : DnsName) : Bytes := wireLabels name.labels ++ name.stop.bytes

structure DnsQuestion where
  name : DnsName
  type : UInt16
  cls : UInt16

def DnsQuestion.bytes (q : DnsQuestion) : Bytes := q.name.bytes ++ (be16 q.type ++ be16 q.cls)

structure DnsRecord where
  name : DnsName
  type : UInt16
  cls : UInt16
  ttl : UInt32
  data : Bytes
  fits : data.length < 2 ^ 16

/-- What is between the name and the data. -/
def DnsRecord.fields (r : DnsRecord) : Bytes := be16 r.type ++ be16 r.cls ++ be32 r.ttl ++ be16 (UInt16.ofNat r.data.length)

def DnsRecord.bytes (r : DnsRecord) : Bytes := r.name.bytes ++ (r.fields ++ r.data)

/-- The address of a record of type A and class IN. -/
def DnsRecord.address (r : DnsRecord) : Option Ip :=
  if r.type = 1 ∧ r.cls = 1 then
    match r.data with
    | [b0, b1, b2, b3] => some ⟨b0, b1, b2, b3⟩
    | _ => none
  else none

structure DnsMessage where
  id : UInt16
  flags : UInt16
  questions : List DnsQuestion
  answers : List DnsRecord
  authority : List DnsRecord
  additional : List DnsRecord
  counts : questions.length < 2 ^ 16 ∧ answers.length < 2 ^ 16 ∧ authority.length < 2 ^ 16 ∧ additional.length < 2 ^ 16

namespace DnsMessage

def header (m : DnsMessage) : Bytes :=
  be16 m.id ++ be16 m.flags ++ be16 (UInt16.ofNat m.questions.length) ++ be16 (UInt16.ofNat m.answers.length) ++
    be16 (UInt16.ofNat m.authority.length) ++ be16 (UInt16.ofNat m.additional.length)

def bytes (m : DnsMessage) : Bytes :=
  m.header ++ (m.questions.flatMap DnsQuestion.bytes ++ (m.answers.flatMap DnsRecord.bytes ++
    (m.authority.flatMap DnsRecord.bytes ++ m.additional.flatMap DnsRecord.bytes)))

/-- Where the first so many answers end. -/
def answersEnd (m : DnsMessage) (i : ℕ) : ℕ :=
  (m.header ++ (m.questions.flatMap DnsQuestion.bytes ++ (m.answers.take i).flatMap DnsRecord.bytes)).length

/-- Answer `i` has an address and is complete in the first `k` bytes. -/
def Answers (m : DnsMessage) (k i : ℕ) (ip : Ip) : Prop :=
  (m.answers[i]?.bind DnsRecord.address) = some ip ∧ m.answersEnd (i + 1) ≤ k

/-- The message is a response without an error to the query `txid`. -/
structure Responds (m : DnsMessage) (txid : UInt16) : Prop where
  id : m.id = txid
  response : m.flags &&& 0x8000 ≠ 0
  rcode : m.flags &&& 0x000F = 0

end DnsMessage

/-! ### Reading a buffer that is the start of a text -/

variable {buf text rest : Bytes} {pos : ℕ}

/-- From `pos` on, the buffer has the start of a text. -/
def Reads (buf : Bytes) (pos : ℕ) (text : Bytes) : Prop := buf.drop pos <+: text

theorem Reads.skip {a : Bytes} (h : Reads buf pos (a ++ text)) : Reads buf (pos + a.length) text := by
  unfold Reads at h ⊢
  rw [← List.drop_drop]
  obtain ⟨c, hc⟩ := h
  by_cases hle : a.length ≤ (buf.drop pos).length
  · refine ⟨c, ?_⟩
    rw [← List.drop_append_of_le_length hle, hc, List.drop_left]
  · rw [List.drop_eq_nil_of_le (by omega)]
    exact List.nil_prefix

variable {i fuel len : ℕ} {ip : Ip} {answers : List DnsRecord} {m : DnsMessage}

theorem Reads.get (h : Reads buf pos text) (hi : pos + i < buf.length) : buf[pos + i]? = text[i]? := by
  obtain ⟨c, rfl⟩ := h
  rw [List.getElem?_append_left (by rw [List.length_drop]; omega), List.getElem?_drop]

theorem Reads.behind (h : buf.length ≤ pos) : Reads buf pos text := by
  unfold Reads
  rw [List.drop_eq_nil_of_le h]
  exact List.nil_prefix

theorem Reads.u8 {b : UInt8} (h : Reads buf pos (b :: text)) (hpos : pos < buf.length) : Net.u8 buf pos = some b := by
  have hget := h.get (i := 0) hpos
  exact hget

theorem Reads.u16 {v : UInt16} (h : Reads buf pos (be16 v ++ text)) (hpos : pos + 2 ≤ buf.length) : Net.u16 buf pos = some v := by
  have hb0 := h.get (i := 0) (by omega)
  have hb1 := h.get (i := 1) (by omega)
  rw [← u16_be16 v text]
  unfold Net.u16
  rw [Nat.add_zero] at hb0
  rw [hb0, hb1]

theorem Reads.ipAt {b0 b1 b2 b3 : UInt8} (h : Reads buf pos ([b0, b1, b2, b3] ++ text)) (hpos : pos + 4 ≤ buf.length) :
    Net.ipAt buf pos = some ⟨b0, b1, b2, b3⟩ := by
  have h0 := h.get (i := 0) (by omega)
  have h1 := h.get (i := 1) (by omega)
  have h2 := h.get (i := 2) (by omega)
  have h3 := h.get (i := 3) (by omega)
  rw [Nat.add_zero] at h0
  unfold Net.ipAt
  rw [h0, h1, h2, h3]
  rfl

/-! ### The walks -/

/-- After a walk over `n` bytes from `pos` on: right behind them if the buffer has all of them, and
behind the buffer otherwise. -/
def Lands (buf : Bytes) (pos n p : ℕ) : Prop := (pos + n ≤ buf.length → p = pos + n) ∧ (buf.length < pos + n → buf.length ≤ p)

/-- A byte that is the length of a label. -/
theorem label_byte {label : Bytes} (hne : label ≠ []) (hlen : label.length ≤ 63) : UInt8.ofNat label.length ≠ 0 ∧
    UInt8.ofNat label.length &&& 0xC0 ≠ 0xC0 ∧ (UInt8.ofNat label.length).toNat = label.length := by
  have hpos : 0 < label.length := List.length_pos_iff.2 hne
  have hbytes : ∀ n < 64, 0 < n → UInt8.ofNat n ≠ 0 ∧ UInt8.ofNat n &&& 0xC0 ≠ 0xC0 ∧ (UInt8.ofNat n).toNat = n := by decide
  exact hbytes label.length (by omega) hpos

theorem skipName_lands {name : DnsName} (h : Reads buf pos (name.bytes ++ text)) (hfuel : buf.length - pos < fuel) :
    ∃ p, skipName buf fuel pos () = (.ok p, ()) ∧ Lands buf pos name.bytes.length p := by
  obtain ⟨labels, stop, valid⟩ := name
  unfold DnsName.bytes at h ⊢
  dsimp only at h ⊢
  induction labels generalizing fuel pos with
  | nil =>
    cases fuel with
    | zero => omega
    | succ fuel =>
      rw [skipName]
      by_cases hpos : pos < buf.length
      · rw [if_pos hpos]
        cases stop with
        | root =>
          rw [h.u8 hpos, ofOption_some, pure_bind_eq, if_pos rfl]
          exact ⟨pos + 1, rfl, fun _ => rfl, fun hlt => absurd hlt (by simp [wireLabels, NameEnd.bytes]; omega)⟩
        | pointer high low hptr =>
          have hzero : high ≠ 0 := by
            rintro rfl
            cases hptr
          rw [h.u8 hpos, ofOption_some, pure_bind_eq, if_neg hzero, if_pos hptr]
          have hlength : (wireLabels [] ++ (NameEnd.pointer high low hptr).bytes).length = 2 := rfl
          exact ⟨pos + 2, rfl, fun _ => rfl, fun hlt => by omega⟩
      · rw [if_neg hpos]
        refine ⟨pos, rfl, fun hle => ?_, fun _ => by omega⟩
        cases stop <;> simp [wireLabels, NameEnd.bytes] at hle <;> omega
  | cons label labels ih =>
    cases fuel with
    | zero => omega
    | succ fuel =>
      obtain ⟨⟨hne, hlen⟩, hrest⟩ := List.forall_mem_cons.1 valid
      obtain ⟨hzero, hptr, hnat⟩ := label_byte hne hlen
      have hwire : wireLabels (label :: labels) = (UInt8.ofNat label.length :: label) ++ wireLabels labels := rfl
      have hlength : (wireLabels (label :: labels) ++ stop.bytes).length = 1 + label.length + (wireLabels labels ++ stop.bytes).length := by
        rw [hwire]
        simp only [List.length_append, List.length_cons]
        omega
      rw [skipName]
      by_cases hpos : pos < buf.length
      · rw [hwire, List.append_assoc, List.append_assoc] at h
        have hnext := h.skip
        rw [List.length_cons, Nat.add_comm label.length, ← List.append_assoc] at hnext
        obtain ⟨p, hrun, hland⟩ := ih (show buf.length - (pos + (1 + label.length)) < fuel by omega) hrest hnext
        rw [if_pos hpos, h.u8 hpos, ofOption_some, pure_bind_eq, if_neg hzero, if_neg hptr, hnat]
        refine ⟨p, hrun, ?_⟩
        unfold Lands at hland ⊢
        rw [hlength]
        omega
      · rw [if_neg hpos]
        refine ⟨pos, rfl, fun hle => ?_, fun _ => by omega⟩
        rw [hlength] at hle
        omega

theorem skipQuestions_lands {questions : List DnsQuestion} (h : Reads buf pos (questions.flatMap DnsQuestion.bytes ++ text))
    (hfuel : buf.length < fuel) : ∃ p, skipQuestions buf fuel questions.length pos () = (.ok p, ()) ∧
      Lands buf pos (questions.flatMap DnsQuestion.bytes).length p := by
  induction questions generalizing pos with
  | nil => exact ⟨pos, rfl, fun _ => rfl, fun hlt => hlt.le⟩
  | cons q questions ih =>
    rw [List.flatMap_cons, DnsQuestion.bytes, List.append_assoc, List.append_assoc] at h
    obtain ⟨p, hname, hland⟩ := skipName_lands h (show buf.length - pos < fuel by omega)
    have hfields : (be16 q.type ++ be16 q.cls).length = 4 := rfl
    have hnext : Reads buf (p + 4) (questions.flatMap DnsQuestion.bytes ++ text) := by
      by_cases hle : pos + q.name.bytes.length ≤ buf.length
      · rw [hland.1 hle]
        exact h.skip.skip
      · exact Reads.behind (by have hp := hland.2 (by omega); omega)
    obtain ⟨p', hrest, hland'⟩ := ih hnext
    refine ⟨p', ?_, ?_⟩
    · rw [List.length_cons, skipQuestions, bind_ok hname]
      exact hrest
    · have hlength : ((q :: questions).flatMap DnsQuestion.bytes).length = q.name.bytes.length + 4 + (questions.flatMap DnsQuestion.bytes).length := by
        rw [List.flatMap_cons, DnsQuestion.bytes]
        simp only [List.length_append, hfields]
      unfold Lands at hland hland' ⊢
      rw [hlength]
      omega

/-- The address that the walk from `pos` on finds in a list of answers. -/
def addressIn (len : ℕ) : ℕ → List DnsRecord → Option Ip
  | _, [] => none
  | pos, r :: answers =>
    if pos + r.bytes.length ≤ len then
      match r.address with
      | some ip => some ip
      | none => addressIn len (pos + r.bytes.length) answers
    else none

theorem DnsRecord.length_bytes (r : DnsRecord) : r.bytes.length = r.name.bytes.length + 10 + r.data.length := by
  have hfields : r.fields.length = 10 := rfl
  simp only [DnsRecord.bytes, List.length_append, hfields, Nat.add_assoc]

theorem DnsRecord.address_eq_some (r : DnsRecord) : r.address = some ip ↔ r.type = 1 ∧ r.cls = 1 ∧ r.data = ip.bytes := by
  unfold DnsRecord.address
  by_cases h : r.type = 1 ∧ r.cls = 1
  · rw [if_pos h]
    constructor
    · intro hip
      split at hip
      · next hdata =>
        cases hip
        exact ⟨h.1, h.2, hdata⟩
      · cases hip
    · rintro ⟨-, -, hdata⟩
      rw [hdata]
      rfl
  · rw [if_neg h]
    exact iff_of_false nofun fun hr => h ⟨hr.1, hr.2.1⟩

theorem DnsRecord.address_ne_none (r : DnsRecord) (ht : r.type = 1) (hc : r.cls = 1) (hlen : r.data.length = 4) : r.address ≠ none := by
  obtain ⟨b0, b1, b2, b3, hdata⟩ : ∃ b0 b1 b2 b3, r.data = [b0, b1, b2, b3] := by
    match r.data, hlen with
    | [b0, b1, b2, b3], _ => exact ⟨b0, b1, b2, b3, rfl⟩
  have hip : r.address = some ⟨b0, b1, b2, b3⟩ := r.address_eq_some.2 ⟨ht, hc, hdata⟩
  rw [hip]
  exact nofun

/-- The walk is over behind the end. -/
theorem findAddress_behind {count : ℕ} (h : buf.length ≤ pos) : findAddress buf fuel count pos = pure none := by
  cases count with
  | zero => rfl
  | succ count => rw [findAddress, if_neg (by omega)]

theorem findAddress_spec (h : Reads buf pos (answers.flatMap DnsRecord.bytes ++ text))
    (hfuel : buf.length < fuel) :
    findAddress buf fuel answers.length pos () = (.ok (addressIn buf.length pos answers), ()) := by
  induction answers generalizing pos with
  | nil => rfl
  | cons r answers ih =>
    have hlength := r.length_bytes
    rw [addressIn]
    by_cases hpos : pos < buf.length
    · rw [List.flatMap_cons, DnsRecord.bytes, List.append_assoc, List.append_assoc] at h
      obtain ⟨p, hname, hland⟩ := skipName_lands h (show buf.length - pos < fuel by omega)
      rw [List.length_cons, findAddress, if_pos hpos, bind_ok hname]
      by_cases hhead : p + 10 > buf.length
      · have hcut : ¬ pos + r.bytes.length ≤ buf.length := by
          unfold Lands at hland
          omega
        rw [if_pos hhead, if_neg hcut]
        rfl
      · have hp : p = pos + r.name.bytes.length := by
          unfold Lands at hland
          omega
        have hfields := h.skip
        rw [← hp, List.append_assoc] at hfields
        have hdata := hfields.skip
        have hten : r.fields.length = 10 := rfl
        rw [hten] at hdata
        have hnext := hdata.skip
        unfold DnsRecord.fields at hfields
        simp only [List.append_assoc] at hfields
        have htype : Net.u16 buf p = some r.type := hfields.u16 (by omega)
        have hcls : Net.u16 buf (p + 2) = some r.cls := hfields.skip.u16 (by change p + 2 + 2 ≤ _; omega)
        have hsize : Net.u16 buf (p + 8) = some (UInt16.ofNat r.data.length) := hfields.skip.skip.skip.u16 (by change p + 8 + 2 ≤ _; omega)
        have hnat : (UInt16.ofNat r.data.length).toNat = r.data.length := by
          rw [UInt16.toNat_ofNat', Nat.mod_eq_of_lt r.fits]
        have hfour : UInt16.ofNat r.data.length = 4 ↔ r.data.length = 4 := by
          rw [← UInt16.toNat_inj, hnat]
          rfl
        rw [if_neg hhead, htype, hcls, hsize]
        simp only [ofOption_some, pure_bind_eq, hfour, hnat]
        by_cases hcut : pos + r.bytes.length ≤ buf.length
        · rw [if_pos hcut]
          cases haddr : r.address with
          | some ip =>
            obtain ⟨ht, hc, hd⟩ := r.address_eq_some.1 haddr
            have hlen : r.data.length = 4 := by rw [hd]; rfl
            have hip : Net.ipAt buf (p + 10) = some ip := by
              rw [hd] at hdata
              exact hdata.ipAt (by omega)
            rw [if_pos ⟨ht, hc, hlen, by omega⟩, hip]
            rfl
          | none =>
            have hno : ¬ (r.type = 1 ∧ r.cls = 1 ∧ r.data.length = 4 ∧ p + 10 + 4 ≤ buf.length) :=
              fun hr => r.address_ne_none hr.1 hr.2.1 hr.2.2.1 haddr
            have hplace : p + 10 + r.data.length = pos + r.bytes.length := by omega
            rw [hplace] at hnext
            rw [if_neg hno, hplace]
            exact ih hnext
        · have hno : ¬ (r.type = 1 ∧ r.cls = 1 ∧ r.data.length = 4 ∧ p + 10 + 4 ≤ buf.length) := by
            rintro ⟨-, -, hlen, hle⟩
            omega
          rw [if_neg hcut, if_neg hno, findAddress_behind (by omega)]
          rfl
    · have hcut : ¬ pos + r.bytes.length ≤ buf.length := by omega
      rw [findAddress_behind (by omega), if_neg hcut]
      rfl

theorem DnsMessage.answersEnd_succ {r : DnsRecord} (h : m.answers[i]? = some r) :
    m.answersEnd (i + 1) = m.answersEnd i + r.bytes.length := by
  unfold DnsMessage.answersEnd
  rw [List.take_add_one, h]
  simp only [List.length_append, List.flatMap_append, Option.toList_some, List.flatMap_singleton]
  omega

theorem DnsMessage.answersEnd_mono (m : DnsMessage) : Monotone m.answersEnd := by
  apply monotone_nat_of_le_succ
  intro i
  cases h : m.answers[i]? with
  | none =>
    have hle : m.answers.length ≤ i := List.getElem?_eq_none_iff.1 h
    unfold DnsMessage.answersEnd
    rw [List.take_of_length_le hle, List.take_of_length_le (by omega)]
  | some r =>
    rw [DnsMessage.answersEnd_succ h]
    omega

theorem DnsMessage.answersEnd_le (m : DnsMessage) (i : ℕ) : m.answersEnd i ≤ m.bytes.length := by
  have hsplit : m.answers.flatMap DnsRecord.bytes = (m.answers.take i).flatMap DnsRecord.bytes ++ (m.answers.drop i).flatMap DnsRecord.bytes := by
    rw [← List.flatMap_append, List.take_append_drop]
  unfold DnsMessage.answersEnd DnsMessage.bytes
  rw [hsplit]
  simp only [List.length_append]
  omega

/-- What the walk finds is the address of the first complete answer that has one. -/
theorem addressIn_eq_some (h : m.answers.drop i = answers) :
    addressIn len (m.answersEnd i) answers = some ip ↔
      ∃ j, i ≤ j ∧ m.Answers len j ip ∧ ∀ l, i ≤ l → l < j → ∀ ip', ¬ m.Answers len l ip' := by
  induction answers generalizing i with
  | nil =>
    refine iff_of_false nofun ?_
    rintro ⟨j, hij, ⟨hj, -⟩, -⟩
    have hle : m.answers.length ≤ i := List.drop_eq_nil_iff.1 h
    rw [List.getElem?_eq_none (by omega)] at hj
    cases hj
  | cons r answers ih =>
    have hr : m.answers[i]? = some r := by
      rw [← List.head?_drop, h]
      rfl
    have hrest : m.answers.drop (i + 1) = answers := by
      rw [← List.tail_drop, h]
      rfl
    rw [addressIn, ← DnsMessage.answersEnd_succ hr]
    by_cases hfits : m.answersEnd (i + 1) ≤ len
    · rw [if_pos hfits]
      cases haddr : r.address with
      | some ip₀ =>
        have hfirst : m.Answers len i ip₀ := ⟨by rw [hr]; exact haddr, hfits⟩
        constructor
        · intro heq
          cases heq
          exact ⟨i, le_rfl, hfirst, fun l hil hli => absurd hil (not_le.2 hli)⟩
        · rintro ⟨j, hij, hj, hno⟩
          rcases Nat.eq_or_lt_of_le hij with rfl | hlt
          · exact hfirst.1.symm.trans hj.1
          · exact absurd hfirst (hno i le_rfl hlt ip₀)
      | none =>
        have hskip (ip' : Ip) : ¬ m.Answers len i ip' := by
          rintro ⟨hi, -⟩
          rw [hr] at hi
          cases haddr.symm.trans hi
        refine (ih hrest).trans ⟨?_, ?_⟩
        · rintro ⟨j, hij, hj, hno⟩
          refine ⟨j, by omega, hj, fun l hil hlj => ?_⟩
          rcases Nat.eq_or_lt_of_le hil with rfl | hlt
          · exact hskip
          · exact hno l hlt hlj
        · rintro ⟨j, hij, hj, hno⟩
          rcases Nat.eq_or_lt_of_le hij with rfl | hlt
          · exact absurd hj (hskip ip)
          · exact ⟨j, hlt, hj, fun l hil hlj => hno l (by omega) hlj⟩
    · rw [if_neg hfits]
      refine iff_of_false nofun ?_
      rintro ⟨j, hij, ⟨-, hj⟩, -⟩
      have hmono := m.answersEnd_mono (show i + 1 ≤ j + 1 by omega)
      omega

theorem addressIn_behind (h : len < pos) : addressIn len pos answers = none := by
  cases answers with
  | nil => rfl
  | cons r answers => rw [addressIn, if_neg (by omega)]

theorem toNat_count {n : ℕ} (h : n < 2 ^ 16) : (UInt16.ofNat n).toNat = n := by
  rw [UInt16.toNat_ofNat', Nat.mod_eq_of_lt h]

theorem dnsParseResponse_eq {txid : UInt16} (h : m.Responds txid) {k : ℕ} (hfuel : (m.bytes.take k).length < fuel) :
    dnsParseResponse fuel (m.bytes.take k) txid () = (.ok (addressIn (m.bytes.take k).length (m.answersEnd 0) m.answers), ()) := by
  generalize hbuf : m.bytes.take k = buf at hfuel ⊢
  have hend : m.answersEnd 0 = 12 + (m.questions.flatMap DnsQuestion.bytes).length := by
    have hheader : m.header.length = 12 := rfl
    simp only [DnsMessage.answersEnd, List.take_zero, List.flatMap_nil, List.append_nil, List.length_append, hheader]
  have hreads : Reads buf 0 m.bytes := by
    rw [← hbuf]
    exact List.take_prefix k m.bytes
  have hbody := hreads
  unfold DnsMessage.bytes at hreads hbody
  have hquestions := hbody.skip
  unfold DnsMessage.header at hreads
  simp only [List.append_assoc] at hreads
  unfold dnsParseResponse
  by_cases hlen : buf.length < 12
  · rw [if_pos hlen, addressIn_behind (by omega)]
    rfl
  · have hid : Net.u16 buf 0 = some m.id := hreads.u16 (by omega)
    have hflags : Net.u16 buf 2 = some m.flags := hreads.skip.u16 (by change 2 + 2 ≤ _; omega)
    have hqd : Net.u16 buf 4 = some (UInt16.ofNat m.questions.length) := hreads.skip.skip.u16 (by change 4 + 2 ≤ _; omega)
    have han : Net.u16 buf 6 = some (UInt16.ofNat m.answers.length) := hreads.skip.skip.skip.u16 (by change 6 + 2 ≤ _; omega)
    rw [if_neg hlen, hid, hflags, hqd, han]
    simp only [ofOption_some, pure_bind_eq, toNat_count m.counts.1, toNat_count m.counts.2.1]
    rw [if_neg (not_not.2 h.id), if_neg h.response, if_neg (not_not.2 h.rcode)]
    obtain ⟨p, hskip, hland⟩ := skipQuestions_lands hquestions hfuel
    have hstart : 0 + m.header.length = 12 := rfl
    rw [hstart] at hskip hland hquestions
    rw [bind_ok hskip]
    by_cases hall : m.answersEnd 0 ≤ buf.length
    · have hp : p = m.answersEnd 0 := by
        unfold Lands at hland
        omega
      have hanswers := hquestions.skip
      rw [← hend] at hanswers
      rw [hp]
      exact findAddress_spec hanswers hfuel
    · have hbehind : buf.length ≤ p := by
        unfold Lands at hland
        omega
      rw [findAddress_behind hbehind, addressIn_behind (by omega)]
      rfl

/-- The parser finds the address of the first complete answer with one, however the message is cut. -/
theorem dnsParseResponse_cut {m : DnsMessage} {txid : UInt16} (h : m.Responds txid) (hsize : m.bytes.length ≤ 512) {fuel : ℕ}
    (hfuel : 512 < fuel) (k : ℕ) :
    (∀ ip, (dnsParseResponse fuel (m.bytes.take k) txid ()).1 = .ok (some ip) ↔
      ∃ i, m.Answers k i ip ∧ ∀ j < i, ∀ ip', ¬ m.Answers k j ip') ∧
    ((dnsParseResponse fuel (m.bytes.take k) txid ()).1 = .ok none ↔ ∀ i ip, ¬ m.Answers k i ip) := by
  have hlen : (m.bytes.take k).length = min k m.bytes.length := List.length_take
  have hanswers (i : ℕ) (ip : Ip) : m.Answers (m.bytes.take k).length i ip ↔ m.Answers k i ip := by
    have hle := m.answersEnd_le (i + 1)
    unfold DnsMessage.Answers
    rw [hlen, le_min_iff]
    exact and_congr_right fun _ => and_iff_left hle
  have hfind (ip : Ip) : addressIn (m.bytes.take k).length (m.answersEnd 0) m.answers = some ip ↔
      ∃ i, m.Answers k i ip ∧ ∀ j < i, ∀ ip', ¬ m.Answers k j ip' := by
    rw [addressIn_eq_some (List.drop_zero (l := m.answers))]
    simp only [hanswers, Nat.zero_le, true_and, forall_const]
  rw [dnsParseResponse_eq h (by omega)]
  constructor
  · intro ip
    rw [← hfind]
    simp
  · have hnone : addressIn (m.bytes.take k).length (m.answersEnd 0) m.answers = none ↔ ∀ i ip, ¬ m.Answers k i ip := by
      constructor
      · intro heq
        classical
        by_contra hsome
        have hex : ∃ i ip, m.Answers k i ip := by
          push Not at hsome
          exact hsome
        obtain ⟨ip, hip⟩ := Nat.find_spec hex
        have hfirst := (hfind ip).2 ⟨_, hip, fun j hj ip' hj' => Nat.find_min hex hj ⟨ip', hj'⟩⟩
        rw [heq] at hfirst
        cases hfirst
      · intro hno
        cases heq : addressIn (m.bytes.take k).length (m.answersEnd 0) m.answers with
        | none => rfl
        | some ip =>
          obtain ⟨i, hi, -⟩ := (hfind ip).1 heq
          exact absurd hi (hno i ip)
    rw [← hnone]
    simp

/-- The name `a` is an alias, and the address is in the second answer. -/
def aliasMessage : DnsMessage where
  id := 7
  flags := 0x8180
  questions := [⟨⟨[[97]], .root, by decide⟩, 1, 1⟩]
  answers := [⟨⟨[], .pointer 0xC0 12 rfl, by decide⟩, 5, 1, 60, [1, 98, 0xC0, 12], by decide⟩,
    ⟨⟨[[98]], .pointer 0xC0 12 rfl, by decide⟩, 1, 1, 60, [10, 0, 0, 1], by decide⟩]
  authority := []
  additional := []
  counts := by decide

theorem dnsParseResponse_alias : (dnsParseResponse 513 (aliasMessage.bytes.take 100) 7 ()).1 = .ok (some ⟨10, 0, 0, 1⟩) := by
  have hcut := dnsParseResponse_cut (m := aliasMessage) ⟨rfl, by decide, by decide⟩ (by decide) (Nat.lt_succ_self 512) 100
  apply (hcut.1 _).2
  refine ⟨1, ⟨rfl, by decide⟩, ?_⟩
  intro j hj ip' h
  obtain rfl : j = 0 := by omega
  cases h.1

end Tg11Kernel.Net
