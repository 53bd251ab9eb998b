import Tg11Kernel.Lib.Buffer
import Tg11Kernel.Net.Checksum
import Tg11Kernel.Net.Resolver
import Mathlib.Tactic.IntervalCases

/-! DNS queries. A host name is a text with dots; on the wire a name is a list of labels, each
behind its length, and an empty label. The builder checks the length of the text once, for
the whole message. -/

namespace Tg11Kernel.Net

open Lib Exec

/-! ### Names -/

/-- `'.'` -/
def DOT : UInt8 := 46

/-- What a label may be. -/
def ValidLabel (label : Bytes) : Prop := label ≠ [] ∧ label.length ≤ 63 ∧ DOT ∉ label

/-- The labels with dots between them, and perhaps one at the end. -/
def Spells (labels : List Bytes) (hostname : Bytes) : Prop :=
  (∀ label ∈ labels, ValidLabel label) ∧
    (hostname = [DOT].intercalate labels ∨ labels ≠ [] ∧ hostname = [DOT].intercalate labels ++ [DOT])

/-- The labels on the wire, up to the empty one. -/
def wireLabels (labels : List Bytes) : Bytes := labels.flatMap fun label => UInt8.ofNat label.length :: label

/-- A QNAME: each label behind its length, then the empty label. -/
def wireName (labels : List Bytes) : Bytes := wireLabels labels ++ [0]

/-- The labels of a name and what follows it. -/
def decodeName : ℕ → Bytes → Option (List Bytes × Bytes)
  | _, [] => none
  | 0, _ => none
  | fuel + 1, b :: rest =>
    if b = 0 then some ([], rest)
    else if b.toNat ≤ 63 ∧ b.toNat ≤ rest.length then do
      let (labels, rest') ← decodeName fuel (rest.drop b.toNat)
      some (rest.take b.toNat :: labels, rest')
    else none

/-- A name on the wire is read back. -/
theorem decodeName_wireName {labels : List Bytes} (h : ∀ label ∈ labels, ValidLabel label) {fuel : ℕ} (hfuel : labels.length < fuel)
    (rest : Bytes) : decodeName fuel (wireName labels ++ rest) = some (labels, rest) := by
  induction labels generalizing fuel with
  | nil =>
    cases fuel with
    | zero => exact absurd hfuel (Nat.not_lt_zero _)
    | succ fuel => rfl
  | cons label labels ih =>
    cases fuel with
    | zero => exact absurd hfuel (Nat.not_lt_zero _)
    | succ fuel =>
      obtain ⟨hne, hlen, -⟩ := h label (by simp)
      have hpos : 0 < label.length := List.length_pos_iff.2 hne
      have hb : (UInt8.ofNat label.length).toNat = label.length := by
        rw [UInt8.toNat_ofNat', Nat.mod_eq_of_lt (by omega)]
      have hzero : UInt8.ofNat label.length ≠ 0 := by
        rw [Ne, ← UInt8.toNat_inj, hb]
        exact hpos.ne'
      have hwire : wireName (label :: labels) ++ rest = UInt8.ofNat label.length :: (label ++ (wireName labels ++ rest)) := by
        simp [wireName, wireLabels]
      rw [hwire, decodeName, if_neg hzero, hb, if_pos ⟨hlen, by simp⟩, List.drop_left, List.take_left,
        ih (fun l hl => h l (by simp [hl])) (by simpa using hfuel)]
      rfl

/-! ### The builder -/

/-- The buffer that a query is built in, as the whole state. -/
def queryBuf (n : ℕ) : Buffer (Block n) n where
  get b := b
  put b _ := b
  get_put _ _ := rfl
  put_put _ _ _ := rfl
  put_get _ := rfl

/-- The loop over the labels, from `pos` on; there is no position after a label that is refused.
Every pass takes a byte of the text at least. -/
def encodeLabels {n : ℕ} : ℕ → Bytes → ℕ → Exec (Block n) (Option ℕ)
  | fuel, text, pos =>
    if text = [] then pure (some pos)
    else match fuel with
    | 0 => hang
    | fuel + 1 => do
      let label := text.takeWhile (· ≠ DOT)
      if label.length = 0 ∨ label.length > 63 then pure none
      else if pos + 1 + label.length ≥ n then pure none
      else do
        (queryBuf n).writeAt pos (UInt8.ofNat label.length)
        (queryBuf n).writeFrom (pos + 1) label
        encodeLabels fuel ((text.dropWhile (· ≠ DOT)).drop 1) (pos + 1 + label.length)

/-- The length of the message, or 0. -/
def dnsBuildQuery {n : ℕ} (hostname : Bytes) (txid : UInt16) : Exec (Block n) ℕ :=
  if 12 + hostname.length + 2 + 4 > n then pure 0
  else do
    (queryBuf n).writeFrom 0 (List.replicate (if n < 512 then n else 512) 0)
    (queryBuf n).writeFrom 0 (be16 txid ++ [0x01, 0x00] ++ [0x00, 0x01])
    match ← encodeLabels hostname.length hostname 12 with
    | none => pure 0
    | some pos => do
      (queryBuf n).writeFrom pos ([0] ++ [0x00, 0x01] ++ [0x00, 0x01])
      pure (pos + 5)

/-! ### Labels of a text -/

theorem spells_nil {labels : List Bytes} : Spells labels [] ↔ labels = [] := by
  constructor
  · rintro ⟨hvalid, h⟩
    cases labels with
    | nil => rfl
    | cons label labels =>
      obtain ⟨hne, -, -⟩ := hvalid label (by simp)
      rcases h with h | ⟨-, h⟩
      · cases labels with
        | nil => exact absurd (by simpa using h.symm) hne
        | cons next labels => simp at h
      · simp at h
  · rintro rfl
    exact ⟨nofun, .inl rfl⟩

/-- The text of the labels after the first one. -/
theorem takeWhile_spelled {label text : Bytes} (hlabel : DOT ∉ label) :
    (label ++ DOT :: text).takeWhile (· ≠ DOT) = label ∧ ((label ++ DOT :: text).dropWhile (· ≠ DOT)).drop 1 = text := by
  have hall : ∀ c ∈ label, decide (c ≠ DOT) = true := by
    intro c hc
    rw [decide_eq_true_eq]
    rintro rfl
    exact hlabel hc
  constructor
  · rw [List.takeWhile_append_of_pos hall, List.takeWhile_cons_of_neg (by simp), List.append_nil]
  · rw [List.dropWhile_append_of_pos hall, List.dropWhile_cons_of_neg (by simp)]
    rfl

theorem takeWhile_last {label : Bytes} (hlabel : DOT ∉ label) :
    label.takeWhile (· ≠ DOT) = label ∧ (label.dropWhile (· ≠ DOT)).drop 1 = [] := by
  have hall : ∀ c ∈ label, decide (c ≠ DOT) = true := by
    intro c hc
    rw [decide_eq_true_eq]
    rintro rfl
    exact hlabel hc
  constructor
  · exact List.takeWhile_eq_self_iff.2 hall
  · rw [List.dropWhile_eq_nil_iff.2 hall]
    rfl

/-- A text is its first label and the rest, which the loop takes apart. -/
theorem spells_cons {labels : List Bytes} {text : Bytes} (hne : text ≠ []) : Spells labels text ↔
    ∃ rest, labels = text.takeWhile (· ≠ DOT) :: rest ∧ ValidLabel (text.takeWhile (· ≠ DOT)) ∧
      Spells rest ((text.dropWhile (· ≠ DOT)).drop 1) := by
  constructor
  · rintro ⟨hvalid, h⟩
    cases labels with
    | nil =>
      rcases h with rfl | ⟨hnil, -⟩
      · exact absurd rfl hne
      · exact absurd rfl hnil
    | cons label rest =>
      obtain ⟨hlabel, hrest⟩ := List.forall_mem_cons.1 hvalid
      cases rest with
      | nil =>
        rcases h with rfl | ⟨-, rfl⟩
        · rw [List.intercalate_singleton, (takeWhile_last hlabel.2.2).1, (takeWhile_last hlabel.2.2).2]
          exact ⟨[], rfl, hlabel, spells_nil.2 rfl⟩
        · rw [List.intercalate_singleton, (takeWhile_spelled hlabel.2.2).1, (takeWhile_spelled hlabel.2.2).2]
          exact ⟨[], rfl, hlabel, spells_nil.2 rfl⟩
      | cons next rest =>
        rw [List.intercalate_cons_cons, List.append_assoc, List.singleton_append] at h
        rcases h with rfl | ⟨-, rfl⟩
        · rw [(takeWhile_spelled hlabel.2.2).1, (takeWhile_spelled hlabel.2.2).2]
          exact ⟨next :: rest, rfl, hlabel, hrest, .inl rfl⟩
        · rw [List.append_assoc, List.cons_append, (takeWhile_spelled hlabel.2.2).1, (takeWhile_spelled hlabel.2.2).2]
          exact ⟨next :: rest, rfl, hlabel, hrest, .inr ⟨by simp, rfl⟩⟩
  · rintro ⟨rest, rfl, hlabel, hvalid, h⟩
    refine ⟨List.forall_mem_cons.2 ⟨hlabel, hvalid⟩, ?_⟩
    have htext : text = text.takeWhile (· ≠ DOT) ++ text.dropWhile (· ≠ DOT) := List.takeWhile_append_dropWhile.symm
    generalize text.takeWhile (· ≠ DOT) = label at htext
    cases hdrop : text.dropWhile (· ≠ DOT) with
    | nil =>
      rw [hdrop] at htext h
      have hrest : rest = [] := spells_nil.1 ⟨hvalid, h⟩
      rw [hrest, List.intercalate_singleton]
      exact .inl (by simpa using htext)
    | cons c tail =>
      have hc : c = DOT := by
        have hhead := List.head?_dropWhile_not (fun c => decide (c ≠ DOT)) text
        rw [hdrop] at hhead
        simpa using hhead
      subst hc
      rw [hdrop] at htext h
      change tail = _ ∨ _ ∧ tail = _ at h
      cases rest with
      | nil =>
        have htail : tail = [] := by simpa using h
        rw [htail] at htext
        rw [List.intercalate_singleton]
        exact .inr ⟨by simp, htext⟩
      | cons next rest =>
        rw [List.intercalate_cons_cons, List.append_assoc, List.singleton_append]
        rcases h with rfl | ⟨-, rfl⟩
        · exact .inl htext
        · exact .inr ⟨by simp, by rw [htext, List.append_assoc, List.cons_append]⟩

theorem length_wireLabels_le {labels : List Bytes} {text : Bytes} (h : Spells labels text) : (wireLabels labels).length ≤ text.length + 1 := by
  have hjoin : (wireLabels labels).length ≤ ([DOT].intercalate labels).length + 1 := by
    clear h
    induction labels with
    | nil => simp [wireLabels]
    | cons label labels ih =>
      cases labels with
      | nil => simp [wireLabels]
      | cons next labels =>
        rw [List.intercalate_cons_cons]
        have hwire : wireLabels (label :: next :: labels) = UInt8.ofNat label.length :: (label ++ wireLabels (next :: labels)) := by
          simp [wireLabels]
        rw [hwire]
        simp only [List.length_cons, List.length_append, List.length_nil]
        omega
  rcases h.2 with rfl | ⟨-, rfl⟩
  · exact hjoin
  · rw [List.length_append]
    omega

theorem writeFrom_queryBuf {n i : ℕ} {b : Block n} {l : Bytes} (hl : i + l.length ≤ n) :
    (queryBuf n).writeFrom i l b = (.ok (), b.overwrite i l) := Buffer.writeFrom_apply hl

/-- The loop writes the labels of a text that has some, and refuses any other text. -/
theorem encodeLabels_spec {n fuel pos : ℕ} {text : Bytes} {b : Block n} (hfuel : text.length ≤ fuel) (hroom : text ≠ [] → pos + text.length + 2 ≤ n) :
    (∀ labels, Spells labels text → ∃ b', encodeLabels fuel text pos b = (.ok (some (pos + (wireLabels labels).length)), b') ∧
      b'.firstBytes (pos + (wireLabels labels).length) = b.firstBytes pos ++ wireLabels labels) ∧
    ((¬ ∃ labels, Spells labels text) → ∃ b', encodeLabels fuel text pos b = (.ok none, b')) := by
  induction fuel generalizing text pos b with
  | zero =>
    obtain rfl : text = [] := List.length_eq_zero_iff.1 (Nat.le_zero.1 hfuel)
    constructor
    · intro labels h
      obtain rfl := spells_nil.1 h
      exact ⟨b, rfl, by simp [wireLabels]⟩
    · exact fun hno => absurd ⟨[], spells_nil.2 rfl⟩ hno
  | succ fuel ih =>
    by_cases hnil : text = []
    · subst hnil
      constructor
      · intro labels h
        obtain rfl := spells_nil.1 h
        exact ⟨b, rfl, by simp [wireLabels]⟩
      · exact fun hno => absurd ⟨[], spells_nil.2 rfl⟩ hno
    · have hsplit : (text.takeWhile (· ≠ DOT)).length + (text.dropWhile (· ≠ DOT)).length = text.length := by
        rw [← List.length_append, List.takeWhile_append_dropWhile]
      have hnodot : DOT ∉ text.takeWhile (· ≠ DOT) := by
        intro hmem
        have himp := List.mem_takeWhile_imp hmem
        simp at himp
      rw [encodeLabels, if_neg hnil]
      by_cases hbad : (text.takeWhile (· ≠ DOT)).length = 0 ∨ (text.takeWhile (· ≠ DOT)).length > 63
      · rw [if_pos hbad]
        have hno : ¬ ValidLabel (text.takeWhile (· ≠ DOT)) := by
          rintro ⟨hne, hle, -⟩
          rw [← List.length_pos_iff] at hne
          omega
        constructor
        · intro labels h
          obtain ⟨-, -, hlabel, -⟩ := (spells_cons hnil).1 h
          exact absurd hlabel hno
        · exact fun _ => ⟨b, rfl⟩
      · rw [not_or] at hbad
        obtain ⟨hpos, hle⟩ := hbad
        have hlabel : ValidLabel (text.takeWhile (· ≠ DOT)) := ⟨List.length_pos_iff.1 (Nat.pos_of_ne_zero hpos), by omega, hnodot⟩
        have hdrop : ((text.dropWhile (· ≠ DOT)).drop 1).length = (text.dropWhile (· ≠ DOT)).length - 1 := List.length_drop
        have htail : text.dropWhile (· ≠ DOT) = [] ∨ 0 < (text.dropWhile (· ≠ DOT)).length := by
          rw [List.length_pos_iff]
          exact em _
        have hroom := hroom hnil
        have hfits : pos + 1 + (text.takeWhile (· ≠ DOT)).length ≤ n := by omega
        rw [if_neg (by omega), if_neg (by omega)]
        generalize hlabels : text.takeWhile (· ≠ DOT) = label at *
        have hwrite : (queryBuf n).writeAt pos (UInt8.ofNat label.length) b = (.ok (), b.overwrite pos [UInt8.ofNat label.length]) := by
          rw [Buffer.writeAt, require_pos (by omega), ← Block.overwrite_cons, Block.overwrite_nil]
          rfl
        have hcopy := writeFrom_queryBuf (b := b.overwrite pos [UInt8.ofNat label.length]) hfits
        have hone : (b.overwrite pos [UInt8.ofNat label.length]).firstBytes (pos + 1) = b.firstBytes pos ++ [UInt8.ofNat label.length] :=
          Block.firstBytes_overwrite rfl (by rw [List.length_singleton]; omega)
        have hfirst : ((b.overwrite pos [UInt8.ofNat label.length]).overwrite (pos + 1) label).firstBytes (pos + 1 + label.length) =
            b.firstBytes pos ++ UInt8.ofNat label.length :: label := by
          rw [Block.firstBytes_overwrite hone hfits, List.append_assoc, List.singleton_append]
        have hnext := @ih (pos + 1 + label.length) ((text.dropWhile (· ≠ DOT)).drop 1)
          ((b.overwrite pos [UInt8.ofNat label.length]).overwrite (pos + 1) label) (by omega) (by
            intro htail'
            rw [← List.length_pos_iff] at htail'
            omega)
        rw [bind_ok hwrite, bind_ok hcopy]
        constructor
        · intro labels h
          obtain ⟨rest, rfl, -, hrest⟩ := (spells_cons hnil).1 h
          obtain ⟨b', hrun, hbytes⟩ := hnext.1 rest hrest
          rw [hlabels]
          have hwire : wireLabels (label :: rest) = UInt8.ofNat label.length :: (label ++ wireLabels rest) := by
            simp [wireLabels]
          have hlen : pos + (wireLabels (label :: rest)).length = pos + 1 + label.length + (wireLabels rest).length := by
            rw [hwire, List.length_cons, List.length_append]
            omega
          refine ⟨b', by rw [hlen]; exact hrun, ?_⟩
          rw [hlen, hbytes]
          rw [hfirst, hwire, List.append_assoc, List.cons_append]
        · intro hno
          apply hnext.2
          rintro ⟨rest, hrest⟩
          exact hno ⟨label :: rest, (spells_cons hnil).2 ⟨rest, by rw [hlabels], by rwa [hlabels], hrest⟩⟩

/-- The header of a query: its id, RD, and one question. -/
def queryHeader (txid : UInt16) : Bytes := be16 txid ++ be16 0x0100 ++ be16 1 ++ be16 0 ++ be16 0 ++ be16 0

/-- The message that asks for the address of a name. -/
def queryMessage (txid : UInt16) (labels : List Bytes) : Bytes := queryHeader txid ++ wireName labels ++ be16 1 ++ be16 1

/-- The zeros and the first fields are the header. -/
theorem dnsBuildQuery_start {n : ℕ} {hostname : Bytes} (txid : UInt16) (b : Block n) (hn : 18 + hostname.length ≤ n) :
    ∃ b₀ : Block n, b₀.firstBytes 12 = queryHeader txid ∧ dnsBuildQuery hostname txid b = (do
      match ← encodeLabels hostname.length hostname 12 with
      | none => pure 0
      | some pos => do
        (queryBuf n).writeFrom pos ([0] ++ [0x00, 0x01] ++ [0x00, 0x01])
        pure (pos + 5) : Exec (Block n) ℕ) b₀ := by
  obtain ⟨k, hk⟩ : ∃ k, k = if n < 512 then n else 512 := ⟨_, rfl⟩
  have hbounds : 12 ≤ k ∧ k ≤ n := by
    rw [hk]
    split_ifs <;> omega
  have hzeros : 0 + (List.replicate k (0 : UInt8)).length ≤ n := by
    rw [List.length_replicate]
    omega
  have hlen : (be16 txid ++ [0x01, 0x00] ++ [0x00, 0x01]).length = 6 := rfl
  have hlength : (queryHeader txid).length = 12 := rfl
  refine ⟨(b.overwrite 0 (List.replicate k 0)).overwrite 0 (be16 txid ++ [0x01, 0x00] ++ [0x00, 0x01]), ?_, ?_⟩
  · rw [← hlength]
    apply Block.firstBytes_eq
    intro i hi
    rw [hlength] at hi
    have hzero : (List.replicate k (0 : UInt8)).getD (i - 0) 0 = 0 := by
      rw [Nat.sub_zero, List.getD_eq_getElem?_getD, List.getElem?_replicate]
      split_ifs <;> rfl
    rw [Block.get_overwrite (by omega), Block.get_overwrite hzeros, List.length_replicate, hlen, hzero,
      if_pos (by omega : 0 ≤ i ∧ i < 0 + k)]
    interval_cases i <;> rfl
  · rw [dnsBuildQuery, if_neg (by omega), ← hk, bind_ok (writeFrom_queryBuf hzeros), bind_ok (writeFrom_queryBuf (by omega))]

theorem dnsBuildQuery_labels {n : ℕ} {hostname : Bytes} {labels : List Bytes} (txid : UInt16) (b : Block n) (h : Spells labels hostname)
    (hn : 18 + hostname.length ≤ n) : ∃ b', dnsBuildQuery hostname txid b = (.ok (queryMessage txid labels).length, b') ∧
      b'.firstBytes (queryMessage txid labels).length = queryMessage txid labels := by
  obtain ⟨b₀, hheader, hstart⟩ := dnsBuildQuery_start txid b hn
  obtain ⟨b₁, hlabels, hbytes⟩ := (@encodeLabels_spec n hostname.length 12 hostname b₀ le_rfl (by omega)).1 labels h
  have hle := length_wireLabels_le h
  have hlen : ([0] ++ [0x00, 0x01] ++ [0x00, 0x01] : Bytes).length = 5 := rfl
  have hfits : 12 + (wireLabels labels).length + ([0] ++ [0x00, 0x01] ++ [0x00, 0x01] : Bytes).length ≤ n := by omega
  have hlength : (queryMessage txid labels).length = 12 + (wireLabels labels).length + 5 := by
    simp [queryMessage, queryHeader, wireName, be16]
    omega
  refine ⟨b₁.overwrite (12 + (wireLabels labels).length) ([0] ++ [0x00, 0x01] ++ [0x00, 0x01]), ?_, ?_⟩
  · rw [hstart, bind_ok hlabels]
    dsimp only
    rw [bind_ok (writeFrom_queryBuf hfits), hlength]
    rfl
  · rw [hlength]
    rw [hheader] at hbytes
    apply (Block.firstBytes_overwrite hbytes hfits).trans
    have hone : be16 1 = [0x00, 0x01] := rfl
    simp [queryMessage, wireName, hone]

theorem dnsBuildQuery_refused {n : ℕ} {hostname : Bytes} (txid : UInt16) (b : Block n)
    (h : ¬ ((∃ labels, Spells labels hostname) ∧ 18 + hostname.length ≤ n)) : ∃ b', dnsBuildQuery hostname txid b = (.ok 0, b') := by
  by_cases hn : 18 + hostname.length ≤ n
  · obtain ⟨b₀, -, hstart⟩ := dnsBuildQuery_start txid b hn
    obtain ⟨b₁, hlabels⟩ := (@encodeLabels_spec n hostname.length 12 hostname b₀ le_rfl (by omega)).2 fun hlabels => h ⟨hlabels, hn⟩
    refine ⟨b₁, ?_⟩
    rw [hstart, bind_ok hlabels]
    rfl
  · refine ⟨b, ?_⟩
    rw [dnsBuildQuery, if_pos (by omega)]
    rfl

/-- A message asks for the address of a name: one question, with the name, the type A and the class IN. -/
structure IsQuery (txid : UInt16) (labels : List Bytes) (message : Bytes) : Prop where
  id : u16 message 0 = some txid
  flags : u16 message 2 = some 0x0100
  questions : u16 message 4 = some 1
  records : u16 message 6 = some 0 ∧ u16 message 8 = some 0 ∧ u16 message 10 = some 0
  question : decodeName message.length (message.drop 12) = some (labels, be16 1 ++ be16 1)

theorem length_le_wireLabels {labels : List Bytes} : labels.length ≤ (wireLabels labels).length := by
  induction labels with
  | nil => simp
  | cons label labels ih =>
    simp only [wireLabels, List.flatMap_cons, List.length_append, List.length_cons] at ih ⊢
    omega

theorem isQuery_queryMessage (txid : UInt16) {labels : List Bytes} (h : ∀ label ∈ labels, ValidLabel label) :
    IsQuery txid labels (queryMessage txid labels) where
  id := u16_be16 txid _
  flags := rfl
  questions := rfl
  records := ⟨rfl, rfl, rfl⟩
  question := by
    have hlength : (queryHeader txid).length = 12 := rfl
    have hle := @length_le_wireLabels labels
    have hdrop : (queryMessage txid labels).drop 12 = wireName labels ++ (be16 1 ++ be16 1) := by
      rw [queryMessage, List.append_assoc, List.append_assoc, ← hlength, List.drop_left]
    rw [hdrop]
    apply decodeName_wireName h
    simp only [queryMessage, wireName, List.length_append]
    omega

/-- The labels of a text are determined by it. -/
theorem Spells.unique {labels labels' : List Bytes} {text : Bytes} (h : Spells labels text) (h' : Spells labels' text) : labels = labels' := by
  induction labels generalizing labels' text with
  | nil =>
    rcases h.2 with rfl | ⟨hne, -⟩
    · exact (spells_nil.1 h').symm
    · exact absurd rfl hne
  | cons label labels ih =>
    have hne : text ≠ [] := by
      rintro rfl
      cases spells_nil.1 h
    obtain ⟨rest, heq, -, hrest⟩ := (spells_cons hne).1 h
    obtain ⟨rest', rfl, -, hrest'⟩ := (spells_cons hne).1 h'
    obtain ⟨rfl, rfl⟩ := List.cons.inj heq
    rw [ih hrest hrest']

/-- The builder stays inside its buffer and makes the query for every name that fits, and for nothing else. -/
theorem dnsBuildQuery_spec {n : ℕ} (hostname : Bytes) (txid : UInt16) (b : Block n) :
    ∃ len b', dnsBuildQuery hostname txid b = (.ok len, b') ∧
      (len ≠ 0 ↔ (∃ labels, Spells labels hostname) ∧ 18 + hostname.length ≤ n) ∧
      (len ≠ 0 → len ≤ n ∧ ∀ labels, Spells labels hostname → IsQuery txid labels (b'.firstBytes len)) := by
  by_cases h : (∃ labels, Spells labels hostname) ∧ 18 + hostname.length ≤ n
  · obtain ⟨b', hrun⟩ : ∃ b', ∀ labels, Spells labels hostname → dnsBuildQuery hostname txid b = (.ok (queryMessage txid labels).length, b') ∧
        b'.firstBytes (queryMessage txid labels).length = queryMessage txid labels := by
      obtain ⟨⟨labels, hlabels⟩, hn⟩ := h
      obtain ⟨b', hrun⟩ := dnsBuildQuery_labels txid b hlabels hn
      exact ⟨b', fun labels' hlabels' => hlabels.unique hlabels' ▸ hrun⟩
    obtain ⟨⟨labels, hlabels⟩, hn⟩ := h
    obtain ⟨hlen, hbytes⟩ := hrun labels hlabels
    have hle := length_wireLabels_le hlabels
    have hlength : (queryMessage txid labels).length = 12 + (wireLabels labels).length + 5 := by
      simp [queryMessage, queryHeader, wireName, be16]
      omega
    refine ⟨_, b', hlen, iff_of_true (by omega) ⟨⟨labels, hlabels⟩, hn⟩, fun _ => ⟨by omega, ?_⟩⟩
    intro labels' hlabels'
    obtain rfl := hlabels.unique hlabels'
    rw [hbytes]
    exact isQuery_queryMessage txid hlabels.1
  · obtain ⟨b', hrun⟩ := dnsBuildQuery_refused txid b h
    exact ⟨0, b', hrun, iff_of_false (by simp) h, fun hne => absurd rfl hne⟩

/-! ### The resolver -/

def dnsTxid : UInt16 := 0xDA01

/-- The query goes out from port 1053, and the first datagram back there is the response. `qbuf` is what
the static buffer holds. -/
def netDnsResolve (n fuel : ℕ) (qbuf : Block 512) (hostname : Bytes) : Exec Stack (Option Ip) :=
  match dnsBuildQuery hostname dnsTxid qbuf with
  | (.ok qlen, qbuf) =>
    if qlen = 0 then pure none
    else do
      let dns ← gets fun s => s.cfg.dns
      if (← netUdpSend n dns 1053 53 (qbuf.firstBytes qlen)) = false then pure none
      else do
        let rbuf ← udpRecvWait n 1053 512 300
        if rbuf = [] then pure none
        else match dnsParseResponse fuel rbuf dnsTxid () with
        | (.ok ip, _) => pure ip
        | (.fail, _) => fail
        | (.hang, _) => hang
  | (.fail, _) => fail
  | (.hang, _) => hang

end Tg11Kernel.Net
