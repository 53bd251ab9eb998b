import Tg11Kernel.Shell.Expansion

/-! Expansion of a line, piece by piece. The scanner writes what it makes of each piece in
turn, and the pieces that it cuts are just those that it may get wrong. -/

namespace Tg11Kernel.Shell

open Lib Exec
open Autorun (uintToDec)

variable {command : Text → Option Text} {t : Table} {code : Int32} {size k : ℕ} {line front rest s out : Text} {piece : Piece}
  {ps : List Piece}

/-! ### Writing -/

theorem emit_fits (h : out.length + s.length < size) : emit size s out = (.ok (), out ++ s) := by
  induction s generalizing out with
  | nil =>
    rw [List.append_nil]
    rfl
  | cons c s ih =>
    rw [List.length_cons] at h
    have hroom : out.length + 1 < size := by omega
    have hrest : emit size s (out ++ [c]) = (.ok (), out ++ [c] ++ s) := ih (by rw [List.length_append, List.length_singleton]; omega)
    rw [emit, bind_ok (gets_apply id out), require_pos (show (id out).length + 1 < size from hroom)]
    show emit size s (out ++ [c]) = _
    rw [hrest, List.append_assoc]
    rfl

theorem emit_over (hout : out.length < size) (h : size ≤ out.length + s.length) : ∃ o, emit size s out = (.fail, o) ∧ o.length < size := by
  induction s generalizing out with
  | nil =>
    rw [List.length_nil] at h
    omega
  | cons c s ih =>
    rw [List.length_cons] at h
    rw [emit, bind_ok (gets_apply id out)]
    by_cases hroom : out.length + 1 < size
    · rw [require_pos (show (id out).length + 1 < size from hroom)]
      exact ih (by rwa [List.length_append, List.length_singleton]) (by rw [List.length_append, List.length_singleton]; omega)
    · rw [require_neg (show ¬ (id out).length + 1 < size from hroom)]
      exact ⟨out, rfl, hout⟩

/-! ### Pieces -/

/-- A scan of a word ends where it stops. -/
theorem takeWhile_run {f : UInt8 → Bool} {word : Text} (hword : ∀ c ∈ word, f c = true) (hrest : f (peek rest) = false) :
    (word ++ rest).takeWhile f = word ∧ (word ++ rest).dropWhile f = rest := by
  rw [List.takeWhile_append_of_pos hword, List.dropWhile_append_of_pos hword]
  cases rest with
  | nil => exact ⟨List.append_nil _, rfl⟩
  | cons c rest =>
    have hc : ¬ f c = true := by
      rw [show f c = false from hrest]
      exact Bool.false_ne_true
    rw [List.takeWhile_cons_of_neg hc, List.dropWhile_cons_of_neg hc, List.append_nil]
    exact ⟨rfl, rfl⟩

theorem takeWhile_name {name : Text} (hname : ∀ c ∈ name, isNameByte c = true) (hrest : isNameByte (peek rest) = false) :
    nameBytes (name ++ rest) = name ∧ (name ++ rest).dropWhile isNameByte = rest := takeWhile_run hname hrest

theorem takeWhile_text {text : Text} (htext : ∀ c ∈ text, c ≠ '}') :
    (text ++ ('}' : UInt8) :: rest).takeWhile (· ≠ ('}' : UInt8)) = text ∧
    (text ++ ('}' : UInt8) :: rest).dropWhile (· ≠ ('}' : UInt8)) = ('}' : UInt8) :: rest := by
  have hall : ∀ c ∈ text, decide (c ≠ ('}' : UInt8)) = true := fun c hc => by simpa using htext c hc
  rw [List.takeWhile_append_of_pos hall, List.dropWhile_append_of_pos hall]
  exact ⟨by simp, by simp⟩

theorem peek_name {name : Text} {d : UInt8} (hname : ∀ c ∈ name, isNameByte c = true) (hd : d ≠ '#') :
    peek (name ++ d :: rest) ≠ ('#' : UInt8) := by
  cases name with
  | nil => exact hd
  | cons c name =>
    intro hc
    have hbyte := hname c (List.mem_cons_self ..)
    rw [show c = '#' from hc] at hbyte
    exact absurd hbyte (by decide)

theorem expandBraces_braced {name : Text} (hname : ∀ c ∈ name, isNameByte c = true) :
    expandBraces t size (name ++ ('}' : UInt8) :: rest) = (emit size (t.valueText (name.take NAME_MAX)) >>= fun _ => pure rest) := by
  obtain ⟨htake, hdrop⟩ := @takeWhile_name (('}' : UInt8) :: rest) name hname (show isNameByte ('}' : UInt8) = false by decide)
  unfold expandBraces
  dsimp only
  rw [if_neg (peek_name hname (by decide)), if_neg (peek_name hname (by decide)), htake, hdrop]
  rfl

theorem expandBraces_length {name : Text} (hname : ∀ c ∈ name, isNameByte c = true) :
    expandBraces t size (('#' : UInt8) :: (name ++ ('}' : UInt8) :: rest)) =
      (emit size (uintToDec (t.valueText (name.take NAME_MAX)).length) >>= fun _ => pure rest) := by
  obtain ⟨htake, hdrop⟩ := @takeWhile_name (('}' : UInt8) :: rest) name hname (show isNameByte ('}' : UInt8) = false by decide)
  unfold expandBraces
  dsimp only
  rw [if_pos (by rfl), if_pos (by rfl), List.tail_cons, htake, hdrop]
  rfl

theorem expandBraces_orElse {name text : Text} (hname : ∀ c ∈ name, isNameByte c = true) (htext : ∀ c ∈ text, c ≠ '}') :
    expandBraces t size (name ++ (':' : UInt8) :: ('-' : UInt8) :: (text ++ ('}' : UInt8) :: rest)) =
      (emit size (if t.valueText (name.take NAME_MAX) ≠ [] then t.valueText (name.take NAME_MAX) else text.take DEFAULT_MAX) >>=
        fun _ => pure rest) := by
  obtain ⟨htake, hdrop⟩ := @takeWhile_name ((':' : UInt8) :: ('-' : UInt8) :: (text ++ ('}' : UInt8) :: rest)) name hname
    (show isNameByte (':' : UInt8) = false by decide)
  obtain ⟨htake', hdrop'⟩ := @takeWhile_text rest text htext
  have hclose : peek (((':' : UInt8) :: ('-' : UInt8) :: (text ++ ('}' : UInt8) :: rest)).drop 2 |>.dropWhile (· ≠ ('}' : UInt8))) =
      ('}' : UInt8) := congrArg peek hdrop'
  unfold expandBraces
  dsimp only
  rw [if_neg (peek_name hname (by decide)), if_neg (peek_name hname (by decide)), htake, hdrop, if_pos ⟨by rfl, by rfl⟩,
    require_pos hclose]
  simp only [List.drop_succ_cons, List.drop_zero, htake', hdrop']
  rfl

/-! ### The loop -/

namespace Piece

variable {name text : Text}

theorem text_braced (name rest : Text) : (Piece.braced name).text ++ rest = ('$' : UInt8) :: ('{' : UInt8) :: (name ++ ('}' : UInt8) :: rest) := by
  simp [Piece.text, chars]

theorem text_length (name rest : Text) :
    (Piece.length name).text ++ rest = ('$' : UInt8) :: ('{' : UInt8) :: ('#' : UInt8) :: (name ++ ('}' : UInt8) :: rest) := by
  simp [Piece.text, chars]

theorem text_orElse (name text rest : Text) : (Piece.orElse name text).text ++ rest =
    ('$' : UInt8) :: ('{' : UInt8) :: (name ++ (':' : UInt8) :: ('-' : UInt8) :: (text ++ ('}' : UInt8) :: rest)) := by
  simp [Piece.text, chars]

end Piece

/-- The round of a `${`. -/
theorem expandAt_braces (u : Text) :
    expandAt command t code size front (('$' : UInt8) :: ('{' : UInt8) :: u) = expandBraces t size u := by
  have hquest : ¬ ('{' : UInt8) = ('?' : UInt8) := by decide
  unfold expandAt
  rw [if_neg (fun h => hquest h.2), if_pos ⟨by rfl, by rfl⟩]
  rfl

/-- A round of the loop writes a piece. -/
theorem expandAt_piece (h : piece.Stands front rest) :
    expandAt command t code size front (piece.text ++ rest) = (emit size (piece.written t code) >>= fun _ => pure rest) := by
  cases piece with
  | exitCode =>
    unfold expandAt
    rw [if_pos ⟨by rfl, by rfl⟩]
    rfl
  | value name =>
    obtain ⟨hne, hname, hrest⟩ := h
    obtain ⟨htake, hdrop⟩ := takeWhile_name hname hrest
    obtain ⟨c, u, rfl⟩ := List.exists_cons_of_ne_nil hne
    have hc := hname c (List.mem_cons_self ..)
    have hquest : ¬ (peek (Piece.text (.value (c :: u)) ++ rest) = ('$' : UInt8) ∧
        peek (Piece.text (.value (c :: u)) ++ rest).tail = ('?' : UInt8)) := by
      rintro ⟨-, hc'⟩
      rw [show c = '?' from hc'] at hc
      exact absurd hc (by decide)
    have hbrace : ¬ (peek (Piece.text (.value (c :: u)) ++ rest) = ('$' : UInt8) ∧
        peek (Piece.text (.value (c :: u)) ++ rest).tail = ('{' : UInt8)) := by
      rintro ⟨-, hc'⟩
      rw [show c = '{' from hc'] at hc
      exact absurd hc (by decide)
    have hhere : (Piece.text (.value (c :: u)) ++ rest).tail = c :: u ++ rest := rfl
    unfold expandAt
    rw [if_neg hquest, if_neg hbrace, hhere, htake, hdrop, if_pos ⟨by rfl, hne⟩]
    rfl
  | braced name =>
    rw [Piece.text_braced, expandAt_braces]
    exact expandBraces_braced h
  | length name =>
    rw [Piece.text_length, expandAt_braces]
    exact expandBraces_length h
  | orElse name text =>
    rw [Piece.text_orElse, expandAt_braces]
    exact expandBraces_orElse h.1 h.2
  | tilde =>
    have hdollar : ¬ peek (Piece.text .tilde ++ rest) = ('$' : UInt8) := by
      show ¬ ('~' : UInt8) = ('$' : UInt8)
      decide
    unfold expandAt
    rw [if_neg (fun h => hdollar h.1), if_neg (fun h => hdollar h.1), if_neg (fun h => hdollar h.1), if_neg (fun h => hdollar h.1),
      if_neg (fun h => hdollar h.1)]
    exact if_pos h
  | byte c =>
    obtain ⟨hdollar, htilde⟩ := h
    have hform : ∀ d : UInt8, (c = '$' → peek rest ≠ d) → ¬ (peek (Piece.text (.byte c) ++ rest) = ('$' : UInt8) ∧
        peek (Piece.text (.byte c) ++ rest).tail = d) := fun d hd h => hd h.1 h.2
    have hname : ¬ (peek (Piece.text (.byte c) ++ rest) = ('$' : UInt8) ∧ nameBytes (Piece.text (.byte c) ++ rest).tail ≠ []) := by
      rintro ⟨hc, hne⟩
      have hnone := @takeWhile_name rest [] (by simp) (hdollar hc).2.2.2
      exact hne hnone.1
    have hnot : ¬ isTilde front (Piece.text (.byte c) ++ rest) = true := by
      intro ht
      have hc : c = '~' := by
        unfold isTilde at ht
        simp only [decide_eq_true_eq] at ht
        exact ht.1
      rw [show Piece.text (.byte c) ++ rest = c :: rest from rfl, htilde hc] at ht
      exact Bool.false_ne_true ht
    have hparen := hform ('(' : UInt8) fun hc => (hdollar hc).2.2.1
    unfold expandAt
    rw [if_neg (hform _ fun hc => (hdollar hc).1), if_neg (hform _ fun hc => (hdollar hc).2.1), if_neg hname,
      if_neg (fun h => hparen ⟨h.1, h.2.1⟩), if_neg hparen, if_neg hnot]
    rfl

/-! ### Runs of the loop -/

theorem Piece.text_ne_nil (piece : Piece) : piece.text ≠ [] := by
  cases piece <;> simp [Piece.text, chars]

theorem Reads.split (h : Reads line ps rest) : line = ps.flatMap Piece.text ++ rest := by
  induction h with
  | start => rfl
  | step _ _ ih =>
    rw [List.flatMap_append, List.flatMap_singleton, List.append_assoc]
    exact ih

theorem Reads.stands (h : Reads line ps rest) (hp : piece ∈ ps) : ∃ front rest, piece.Stands front rest := by
  induction h with
  | start => cases hp
  | step _ hstands ih =>
    rcases List.mem_append.1 hp with hp | hp
    · exact ih hp
    · rw [List.mem_singleton.1 hp]
      exact ⟨_, _, hstands⟩

theorem Reads.length_le (h : Reads line ps rest) : ps.length ≤ line.length := by
  have hpieces : ps.length ≤ (ps.flatMap Piece.text).length := by
    clear h
    induction ps with
    | nil => exact Nat.le_refl _
    | cons piece ps ih =>
      have hpos := List.length_pos_of_ne_nil piece.text_ne_nil
      rw [List.flatMap_cons, List.length_append, List.length_cons]
      omega
  have hline := congrArg List.length h.split
  rw [List.length_append] at hline
  omega

/-- The loop behind the pieces that have been read: what it made of them is written, or did not fit. -/
theorem expandLoop_reads (hsize : 0 < size) (h : Reads line ps rest) (k : ℕ) :
    ((ps.flatMap (Piece.written t code)).length < size → expandLoop command t code size line (ps.length + k) line [] =
      expandLoop command t code size line k rest (ps.flatMap (Piece.written t code))) ∧
    (size ≤ (ps.flatMap (Piece.written t code)).length →
      ∃ o, expandLoop command t code size line (ps.length + k) line [] = (.fail, o) ∧ o.length < size) := by
  induction h generalizing k with
  | start =>
    refine ⟨fun _ => ?_, fun hover => ?_⟩
    · rw [List.length_nil, Nat.zero_add]
      rfl
    · rw [List.flatMap_nil, List.length_nil] at hover
      omega
  | @step ps piece rest hread hp ih =>
    obtain ⟨hfits, hover⟩ := ih (k + 1)
    have hfront : line.take (line.length - (piece.text ++ rest).length) = ps.flatMap Piece.text := by
      have hline := hread.split
      rw [hline, List.length_append, Nat.add_sub_cancel, List.take_left]
    have hne : piece.text ++ rest ≠ [] := fun hnil => piece.text_ne_nil (List.append_eq_nil_iff.1 hnil).1
    have hround : expandLoop command t code size line (k + 1) (piece.text ++ rest) =
        (emit size (piece.written t code) >>= fun _ => expandLoop command t code size line k rest) := by
      rw [expandLoop, if_neg hne, hfront, expandAt_piece hp, bind_assoc_eq]
      rfl
    have hlength : (ps ++ [piece]).length + k = ps.length + (k + 1) := by
      rw [List.length_append, List.length_singleton]
      omega
    rw [List.flatMap_append, List.flatMap_singleton, List.length_append, hlength]
    refine ⟨fun hroom => ?_, fun hfull => ?_⟩
    · rw [hfits (by omega), hround, bind_ok (emit_fits hroom)]
    · by_cases hbefore : (ps.flatMap (Piece.written t code)).length < size
      · obtain ⟨o, ho, hlt⟩ := emit_over hbefore hfull
        exact ⟨o, by rw [hfits hbefore, hround, bind_fail ho], hlt⟩
      · exact hover (by omega)

/-! ### How a line is read -/

theorem cons_of_peek {s : Text} {c : UInt8} (h : peek s = c) (hc : c ≠ 0) : ∃ u, s = c :: u := by
  cases s with
  | nil => exact absurd h.symm hc
  | cons d u => exact ⟨u, by rw [show d = c from h]⟩

theorem name_split (s : Text) : nameBytes s ++ s.dropWhile isNameByte = s ∧ ∀ c ∈ nameBytes s, isNameByte c = true :=
  ⟨List.takeWhile_append_dropWhile, fun _ hc => List.mem_takeWhile_imp hc⟩

/-- Behind `${` a form is read, or the scanner returns -1. -/
theorem braces_or_fails (v : Text) :
    (∃ piece rest, ('$' : UInt8) :: ('{' : UInt8) :: v = Piece.text piece ++ rest ∧ ∀ front, piece.Stands front rest) ∨
    ∀ t size out, expandBraces t size v out = (.fail, out) := by
  by_cases hhash : peek v = '#'
  · obtain ⟨w, rfl⟩ := cons_of_peek hhash (by decide)
    obtain ⟨hsplit, hname⟩ := name_split w
    by_cases hclose : peek (w.dropWhile isNameByte) = ('}' : UInt8)
    · obtain ⟨rest, hrest⟩ := cons_of_peek hclose (by decide)
      rw [hrest] at hsplit
      refine .inl ⟨.length (nameBytes w), rest, ?_, fun _ => hname⟩
      rw [Piece.text_length, hsplit]
    · refine .inr fun t size out => ?_
      unfold expandBraces
      dsimp only
      rw [if_pos (by rfl), if_pos (by rfl), List.tail_cons, require_neg hclose]
      rfl
  · obtain ⟨hsplit, hname⟩ := name_split v
    by_cases hcolon : peek (v.dropWhile isNameByte) = (':' : UInt8) ∧ peek (v.dropWhile isNameByte).tail = ('-' : UInt8)
    · obtain ⟨w, hw⟩ := cons_of_peek hcolon.1 (by decide)
      rw [hw] at hcolon
      obtain ⟨x, hx⟩ := cons_of_peek hcolon.2 (by decide)
      rw [List.tail_cons] at hx
      subst hx
      have htext : ∀ c ∈ x.takeWhile (· ≠ ('}' : UInt8)), c ≠ ('}' : UInt8) := fun c hc => by simpa using List.mem_takeWhile_imp hc
      have hx : x.takeWhile (· ≠ ('}' : UInt8)) ++ x.dropWhile (· ≠ ('}' : UInt8)) = x := List.takeWhile_append_dropWhile
      by_cases hclose : peek (x.dropWhile (· ≠ ('}' : UInt8))) = ('}' : UInt8)
      · obtain ⟨rest, hrest⟩ := cons_of_peek hclose (by decide)
        refine .inl ⟨.orElse (nameBytes v) (x.takeWhile (· ≠ ('}' : UInt8))), rest, ?_, fun _ => ⟨hname, htext⟩⟩
        rw [hrest] at hx
        rw [Piece.text_orElse, hx, ← hw, hsplit]
      · refine .inr fun t size out => ?_
        unfold expandBraces
        dsimp only
        rw [if_neg hhash, if_neg hhash, hw, if_pos hcolon]
        have hclose' : ¬ peek (((':' : UInt8) :: ('-' : UInt8) :: x).drop 2 |>.dropWhile (· ≠ ('}' : UInt8))) = ('}' : UInt8) := hclose
        rw [require_neg hclose']
        rfl
    · by_cases hclose : peek (v.dropWhile isNameByte) = ('}' : UInt8)
      · obtain ⟨rest, hrest⟩ := cons_of_peek hclose (by decide)
        rw [hrest] at hsplit
        refine .inl ⟨.braced (nameBytes v), rest, ?_, fun _ => hname⟩
        rw [Piece.text_braced, hsplit]
      · refine .inr fun t size out => ?_
        unfold expandBraces
        dsimp only
        rw [if_neg hhash, if_neg hhash, if_neg hcolon, require_neg hclose]
        rfl

/-- What stands at the start of a text: a piece, a `${` that is no form, or a substitution. -/
theorem next_piece (hne : s ≠ []) (front : Text) : (∃ piece rest, s = Piece.text piece ++ rest ∧ piece.Stands front rest) ∨
    (∃ u, s = ('$' : UInt8) :: ('{' : UInt8) :: u ∧ ∀ t size out, expandBraces t size u out = (.fail, out)) ∨ chars "$(" <+: s := by
  obtain ⟨c, u, rfl⟩ := List.exists_cons_of_ne_nil hne
  by_cases hdollar : c = '$'
  · subst hdollar
    by_cases hquest : peek u = '?'
    · obtain ⟨rest, rfl⟩ := cons_of_peek hquest (by decide)
      exact .inl ⟨.exitCode, rest, rfl, trivial⟩
    by_cases hbrace : peek u = '{'
    · obtain ⟨v, rfl⟩ := cons_of_peek hbrace (by decide)
      rcases braces_or_fails v with ⟨piece, rest, htext, hstands⟩ | hfails
      · exact .inl ⟨piece, rest, htext, hstands front⟩
      · exact .inr (.inl ⟨v, rfl, hfails⟩)
    by_cases hparen : peek u = '('
    · obtain ⟨v, rfl⟩ := cons_of_peek hparen (by decide)
      exact .inr (.inr ⟨v, rfl⟩)
    obtain ⟨hsplit, hname⟩ := name_split u
    by_cases hbyte : isNameByte (peek u) = true
    · refine .inl ⟨.value (nameBytes u), u.dropWhile isNameByte, ?_, ?_, hname, ?_⟩
      · show _ = ('$' : UInt8) :: (nameBytes u ++ u.dropWhile isNameByte)
        rw [hsplit]
      · cases u with
        | nil => exact absurd hbyte (by decide)
        | cons d u =>
          have hd : isNameByte d = true := hbyte
          unfold nameBytes
          rw [List.takeWhile_cons_of_pos hd]
          exact List.cons_ne_nil _ _
      · cases hrest : u.dropWhile isNameByte with
        | nil => decide
        | cons d rest =>
          have hd := List.head?_dropWhile_not isNameByte u
          rw [hrest] at hd
          simpa [peek] using hd
    · rw [Bool.not_eq_true] at hbyte
      exact .inl ⟨.byte ('$' : UInt8), u, rfl, fun _ => ⟨hquest, hbrace, hparen, hbyte⟩, fun h => absurd h (by decide)⟩
  · by_cases htilde : isTilde front (c :: u) = true
    · have hc : c = '~' := by
        unfold isTilde at htilde
        simp only [decide_eq_true_eq] at htilde
        exact htilde.1
      subst hc
      exact .inl ⟨.tilde, u, rfl, htilde⟩
    · rw [Bool.not_eq_true] at htilde
      exact .inl ⟨.byte c, u, rfl, fun h => absurd h hdollar, fun _ => htilde⟩

/-- Without substitutions a line is read to its end, or to a `${` that is no form. -/
theorem reads_on (hsub : NoSubstitution line) (h : Reads line ps rest) : (∃ ps, Reads line ps []) ∨
    ∃ ps u, Reads line ps (('$' : UInt8) :: ('{' : UInt8) :: u) ∧ ∀ t size out, expandBraces t size u out = (.fail, out) := by
  induction hn : rest.length using Nat.strong_induction_on generalizing ps rest with
  | _ n ih =>
    by_cases hnil : rest = []
    · rw [hnil] at h
      exact .inl ⟨ps, h⟩
    · rcases next_piece hnil (ps.flatMap Piece.text) with ⟨piece, after, rfl, hstands⟩ | ⟨u, rfl, hfails⟩ | hparen
      · have hpos := List.length_pos_of_ne_nil piece.text_ne_nil
        rw [List.length_append] at hn
        exact ih after.length (by omega) (h.step hstands) rfl
      · exact .inr ⟨ps, u, h, hfails⟩
      · exact absurd hparen (hsub ps rest h)

/-! ### Results -/

theorem expand_eq (hsize : 0 < size) (hps : ps.length ≤ line.length) : expandCommandSubstitutions command t code size line =
    expandLoop command t code size line (ps.length + (line.length - ps.length + 1)) line := by
  unfold expandCommandSubstitutions
  rw [require_pos (by omega), show line.length + 1 = ps.length + (line.length - ps.length + 1) by omega]
  rfl

theorem expand_reads (hsize : 0 < size) (h : Reads line ps []) : ((ps.flatMap (Piece.written t code)).length < size →
      expandCommandSubstitutions command t code size line [] = (.ok (), ps.flatMap (Piece.written t code))) ∧
    (size ≤ (ps.flatMap (Piece.written t code)).length →
      ∃ o, expandCommandSubstitutions command t code size line [] = (.fail, o) ∧ o.length < size) := by
  obtain ⟨hfits, hover⟩ := @expandLoop_reads command t code size line _ ps hsize h (line.length - ps.length + 1)
  rw [expand_eq hsize h.length_le]
  exact ⟨fun hroom => hfits hroom, hover⟩

theorem expand_stuck {u : Text} (hsize : 0 < size) (h : Reads line ps (('$' : UInt8) :: ('{' : UInt8) :: u))
    (hfails : ∀ t size out, expandBraces t size u out = (.fail, out)) :
    ∃ o, expandCommandSubstitutions command t code size line [] = (.fail, o) ∧ o.length < size := by
  obtain ⟨hfits, hover⟩ := @expandLoop_reads command t code size line _ ps hsize h (line.length - ps.length + 1)
  rw [expand_eq hsize h.length_le]
  by_cases hroom : (ps.flatMap (Piece.written t code)).length < size
  · refine ⟨ps.flatMap (Piece.written t code), ?_, hroom⟩
    rw [hfits hroom, expandLoop, if_neg (List.cons_ne_nil _ _)]
    refine bind_fail ?_
    rw [expandAt_braces]
    exact hfails t size _
  · exact hover (by omega)

/-- A line that is read to its end has no `${` that is no form. -/
theorem not_stuck {u : Text} {ps' : List Piece} (h : Reads line ps []) (h' : Reads line ps' (('$' : UInt8) :: ('{' : UInt8) :: u))
    (hfails : ∀ t size out, expandBraces t size u out = (.fail, out)) : False := by
  obtain ⟨hfits, -⟩ := @expand_reads (fun _ => none) booted.table 0 ((ps.flatMap (Piece.written booted.table 0)).length + 1) line ps
    (Nat.succ_pos _) h
  obtain ⟨o, ho, -⟩ := @expand_stuck (fun _ => none) booted.table 0 ((ps.flatMap (Piece.written booted.table 0)).length + 1) line ps' u
    (Nat.succ_pos _) h' hfails
  rw [hfits (Nat.lt_succ_self _)] at ho
  cases ho

/-! ### Pieces that are not cut -/

/-- The exit code is printed but for the least one. -/
theorem exitText_eq (h : code ≠ Int32.minValue) : exitText code = decimalText code.toInt := by
  have hmin : Int32.minValue.toInt = -2147483648 := by decide
  have hne : code.toInt ≠ -2147483648 := fun heq => h (Int32.toInt.inj (heq.trans hmin.symm))
  have hlow := code.le_toInt
  have hhigh := code.toInt_lt
  unfold exitText decimalText
  by_cases hneg : code.toInt < 0
  · have hneg' : code < 0 := by
      rw [Int32.lt_iff_toInt_lt]
      exact hneg
    have hminus : (-code).toInt = -code.toInt := by
      rw [Int32.toInt_neg]
      exact Int.bmod_eq_of_le (by omega) (by omega)
    have habs : (-code.toInt).toNat = code.toInt.natAbs := by omega
    rw [if_pos hneg, if_pos hneg', hminus, magnitudeText_eq (by omega) (by omega), habs]
  · have hneg' : ¬ code < 0 := by
      rw [Int32.lt_iff_toInt_lt]
      exact hneg
    rw [if_neg hneg, if_neg hneg', magnitudeText_eq (by omega) (by omega)]
    congr 1
    omega

theorem Piece.written_eq (h : piece.Short code) : piece.written t code = piece.meaning t code := by
  cases piece with
  | exitCode => exact exitText_eq h
  | value name => rw [Piece.written, Piece.meaning, List.take_of_length_le h]
  | braced name => rw [Piece.written, Piece.meaning, List.take_of_length_le h]
  | length name => rw [Piece.written, Piece.meaning, List.take_of_length_le h]
  | orElse name text => rw [Piece.written, Piece.meaning, List.take_of_length_le h.1, List.take_of_length_le h.2]
  | tilde => rfl
  | byte c => rfl

theorem written_of_short (h : ∀ piece ∈ ps, piece.Short code) : ps.flatMap (Piece.written t code) = ps.flatMap (Piece.meaning t code) := by
  rw [List.flatMap_def, List.flatMap_def, List.map_congr_left fun piece hp => Piece.written_eq (h piece hp)]

theorem expand_empty : expandCommandSubstitutions command t code 0 line [] = (.fail, []) := by
  unfold expandCommandSubstitutions
  rw [require_neg (by decide)]
  rfl

theorem expands_of_uncut (hsub : NoSubstitution line) (huncut : Uncut line code) (t : Table) (size : ℕ) :
    Expands line t code size (expandCommandSubstitutions command t code size line []) := by
  rcases Nat.eq_zero_or_pos size with rfl | hsize
  · rw [expand_empty]
    refine ⟨nofun, Nat.le_refl _, nofun, ⟨nofun, ?_⟩, fun _ _ => nofun⟩
    rintro ⟨ps, -, hfits⟩
    omega
  have hreads : ∀ ps, Reads line ps [] →
      ((ps.flatMap (Piece.meaning t code)).length < size →
        expandCommandSubstitutions command t code size line [] = (.ok (), ps.flatMap (Piece.meaning t code))) ∧
      (size ≤ (ps.flatMap (Piece.meaning t code)).length →
        ∃ o, expandCommandSubstitutions command t code size line [] = (.fail, o) ∧ o.length < size) := by
    intro ps h
    rw [← written_of_short (huncut ps h)]
    exact expand_reads hsize h
  have hend : (∃ ps, Reads line ps [] ∧ (ps.flatMap (Piece.meaning t code)).length < size ∧
        expandCommandSubstitutions command t code size line [] = (.ok (), ps.flatMap (Piece.meaning t code))) ∨
      ∃ o, expandCommandSubstitutions command t code size line [] = (.fail, o) ∧ o.length < size := by
    rcases reads_on hsub .start with ⟨ps, h⟩ | ⟨ps, u, h, hfails⟩
    · obtain ⟨hfits, hover⟩ := hreads ps h
      rcases Nat.lt_or_ge (ps.flatMap (Piece.meaning t code)).length size with hroom | hfull
      · exact .inl ⟨ps, h, hroom, hfits hroom⟩
      · exact .inr (hover hfull)
    · exact .inr (expand_stuck hsize h hfails)
  rcases hend with ⟨ps, h, hroom, hrun⟩ | ⟨o, hrun, hlt⟩
  · rw [hrun]
    refine ⟨fun _ => hroom, Nat.le_of_lt hroom, nofun, ⟨fun _ => ⟨ps, h, hroom⟩, fun _ => rfl⟩, fun ps' h' _ => ?_⟩
    obtain ⟨hfits, hover⟩ := hreads ps' h'
    rcases Nat.lt_or_ge (ps'.flatMap (Piece.meaning t code)).length size with hroom' | hfull
    · have hsame := hrun.symm.trans (hfits hroom')
      exact congrArg Prod.snd hsame
    · obtain ⟨o, ho, -⟩ := hover hfull
      rw [hrun] at ho
      cases ho
  · rw [hrun]
    refine ⟨nofun, Nat.le_of_lt hlt, nofun, ⟨nofun, ?_⟩, fun _ _ => nofun⟩
    rintro ⟨ps, h, hroom⟩
    rw [(hreads ps h).1 hroom] at hrun
    cases hrun

/-! ### Pieces that are cut -/

theorem takeWhile_ofFn {n : ℕ} {f : Fin n → UInt8} {s : Text} (hnul : ∀ c ∈ s, c ≠ 0) (hfits : s.length < n)
    (hbelow : ∀ i : Fin n, i.val < s.length → f i = s.getD i.val 0) (hend : ∀ i : Fin n, i.val = s.length → f i = 0) :
    (List.ofFn f).takeWhile (· ≠ 0) = s := by
  have hlength : (List.ofFn f).length = n := List.length_ofFn
  have htake : (List.ofFn f).take s.length = s := by
    apply List.ext_getElem
    · rw [List.length_take, hlength]
      omega
    · intro i hi hi'
      rw [List.getElem_take, List.getElem_ofFn, hbelow _ hi', List.getD_eq_getElem?_getD, List.getElem?_eq_getElem hi', Option.getD_some]
  have hdrop : (List.ofFn f).drop s.length = 0 :: (List.ofFn f).drop (s.length + 1) := by
    rw [List.drop_eq_getElem_cons (by omega), List.getElem_ofFn, hend _ rfl]
  rw [← List.take_append_drop s.length (List.ofFn f), htake, hdrop, List.takeWhile_append_of_pos fun c hc => by simpa using hnul c hc,
    List.takeWhile_cons_of_neg (by decide), List.append_nil]

theorem text_copyText {n : ℕ} (b : Block n) {s : Text} (hnul : ∀ c ∈ s, c ≠ 0) (hfits : s.length < n) : (b.copyText s).text = s := by
  have hmin : min s.length (n - 1) = s.length := by omega
  apply takeWhile_ofFn hnul hfits
  · intro i hi
    rw [Block.copyText, hmin, if_pos hi]
  · intro i hi
    rw [Block.copyText, hmin, if_neg (by omega), if_pos hi]

/-- A table with one variable. -/
def single (name value : Text) : Table where
  count := 1
  names := fun _ => Block.zero.copyText name
  values := fun _ => Block.zero.copyText value

theorem valueText_single {name value : Text} (hname : ∀ c ∈ name, c ≠ 0) (hfits : name.length ≤ NAME_MAX) (hvalue : ∀ c ∈ value, c ≠ 0)
    (hroom : value.length < 96) (m : Text) : (single name value).valueText m = if name = m then value else [] := by
  have htext : (Block.zero.copyText name : Block 16).text = name := text_copyText _ hname (Nat.lt_succ_of_le hfits)
  have hval : (Block.zero.copyText value : Block 96).text = value := text_copyText _ hvalue hroom
  have hfind : (single name value).find m = if name = m then some 0 else none := by
    have hpass : ∀ i : Fin SCRIPT_VAR_MAX, ((i.val : ℤ) < (single name value).count ∧ ((single name value).names i).text = m) ↔
        i = 0 ∧ name = m := by
      intro i
      have hi : ((i.val : ℤ) < 1) ↔ i = 0 := by
        refine ⟨fun h => Fin.ext (show i.val = 0 by omega), fun h => ?_⟩
        rw [h]
        decide
      show ((i.val : ℤ) < 1 ∧ (Block.zero.copyText name : Block 16).text = m) ↔ _
      rw [htext, hi]
    unfold Table.find
    simp only [hpass]
    split_ifs with hm
    · rw [show List.finRange SCRIPT_VAR_MAX = 0 :: (List.finRange SCRIPT_VAR_MAX).tail from rfl, List.find?_cons_of_pos (by simp [hm])]
    · apply List.find?_eq_none.2
      intro i _
      simp [hm]
  unfold Table.valueText Table.value
  rw [hfind]
  split_ifs
  · exact hval
  · rfl

theorem valueText_booted (m : Text) : booted.table.valueText m = [] := by
  have hfind : booted.table.find m = none := by
    apply List.find?_eq_none.2
    intro i _
    have hcount : ¬ (i.val : ℤ) < booted.table.count := Int.not_lt.2 (Int.natCast_nonneg _)
    simp [hcount]
  rw [Table.valueText, Table.value, hfind]
  rfl

/-- Texts of which none is longer are together as long only where each is. -/
theorem length_eq_of_flatMap {f g : Piece → Text} (hle : ∀ piece ∈ ps, (f piece).length ≤ (g piece).length)
    (h : ps.flatMap f = ps.flatMap g) : ∀ piece ∈ ps, (f piece).length = (g piece).length := by
  have hlength := congrArg List.length h
  clear h
  induction ps with
  | nil => nofun
  | cons piece ps ih =>
    have hpiece := hle piece (List.mem_cons_self ..)
    have hrest : (ps.flatMap f).length ≤ (ps.flatMap g).length := by
      rw [List.length_flatMap, List.length_flatMap]
      exact List.sum_le_sum fun q hq => hle q (List.mem_cons_of_mem _ hq)
    rw [List.flatMap_cons, List.flatMap_cons, List.length_append, List.length_append] at hlength
    intro q hq
    rcases List.mem_cons.1 hq with rfl | hq
    · omega
    · exact ih (fun q hq => hle q (List.mem_cons_of_mem _ hq)) (by omega) q hq

/-- The name in a piece. -/
def Piece.name : Piece → Option Text
  | .value name => some name
  | .braced name => some name
  | .length name => some name
  | .orElse name _ => some name
  | _ => none

/-- With no variable set the scanner writes too little, for a long default or the least exit code. -/
theorem written_booted (piece : Piece) : (piece.written booted.table code).length ≤ (piece.meaning booted.table code).length ∧
    ((piece.written booted.table code).length = (piece.meaning booted.table code).length →
      (∀ name text, piece = .orElse name text → text.length ≤ DEFAULT_MAX) ∧ (piece = .exitCode → code ≠ Int32.minValue)) := by
  cases piece with
  | exitCode =>
    by_cases hcode : code = Int32.minValue
    · rw [hcode]
      exact ⟨by decide, fun h => absurd h (by decide)⟩
    · rw [Piece.written, Piece.meaning, exitText_eq hcode]
      exact ⟨Nat.le_refl _, fun _ => ⟨nofun, fun _ => hcode⟩⟩
  | value name =>
    rw [Piece.written, Piece.meaning, valueText_booted, valueText_booted]
    exact ⟨Nat.le_refl _, fun _ => ⟨nofun, nofun⟩⟩
  | braced name =>
    rw [Piece.written, Piece.meaning, valueText_booted, valueText_booted]
    exact ⟨Nat.le_refl _, fun _ => ⟨nofun, nofun⟩⟩
  | length name =>
    rw [Piece.written, Piece.meaning, valueText_booted, valueText_booted]
    exact ⟨Nat.le_refl _, fun _ => ⟨nofun, nofun⟩⟩
  | orElse name text =>
    rw [Piece.written, Piece.meaning, valueText_booted, valueText_booted, if_neg (by simp), if_neg (by simp), List.length_take]
    refine ⟨Nat.min_le_right .., fun h => ⟨fun name' text' heq => ?_, nofun⟩⟩
    cases heq
    omega
  | tilde => exact ⟨Nat.le_refl _, fun _ => ⟨nofun, nofun⟩⟩
  | byte c => exact ⟨Nat.le_refl _, fun _ => ⟨nofun, nofun⟩⟩

/-- With a variable of 15 bytes set to 95 bytes the scanner writes too much for a longer name
that begins with them. -/
theorem meaning_single {name value : Text} (hname : ∀ c ∈ name, c ≠ 0) (hfits : name.length = NAME_MAX) (hvalue : ∀ c ∈ value, c ≠ 0)
    (hroom : value.length = 95) (hcode : piece = .exitCode → code ≠ Int32.minValue)
    (hdefault : ∀ m text, piece = .orElse m text → text.length ≤ DEFAULT_MAX) :
    (piece.meaning (single name value) code).length ≤ (piece.written (single name value) code).length ∧
    (∀ m, piece.name = some m → NAME_MAX < m.length → name = m.take NAME_MAX →
      (piece.meaning (single name value) code).length < (piece.written (single name value) code).length) := by
  have hlookup := valueText_single hname (Nat.le_of_eq hfits) hvalue (by omega)
  have hlong : ∀ m : Text, NAME_MAX < m.length → (single name value).valueText m = [] := by
    intro m hm
    rw [hlookup, if_neg]
    rintro rfl
    omega
  have hcut : ∀ m : Text, name = m.take NAME_MAX → (single name value).valueText (m.take NAME_MAX) = value := fun m hm => by rw [hlookup, if_pos hm]
  have hplain : ∀ m : Text, ((single name value).valueText m).length ≤ ((single name value).valueText (m.take NAME_MAX)).length := by
    intro m
    rcases Nat.lt_or_ge NAME_MAX m.length with hm | hm
    · rw [hlong m hm]
      exact Nat.zero_le _
    · rw [List.take_of_length_le hm]
  have hdigits : ∀ m : Text, (uintToDec ((single name value).valueText m).length).length ≤
      (uintToDec ((single name value).valueText (m.take NAME_MAX)).length).length := by
    intro m
    rcases Nat.lt_or_ge NAME_MAX m.length with hm | hm
    · rw [hlong m hm]
      exact List.length_pos_of_ne_nil (by simp [uintToDec])
    · rw [List.take_of_length_le hm]
  cases piece with
  | exitCode =>
    rw [Piece.meaning, Piece.written, exitText_eq (hcode rfl)]
    exact ⟨Nat.le_refl _, nofun⟩
  | value m =>
    refine ⟨hplain m, fun m' hm' hover htake => ?_⟩
    cases hm'
    rw [Piece.meaning, Piece.written, hlong m hover, hcut m htake, hroom]
    decide
  | braced m =>
    refine ⟨hplain m, fun m' hm' hover htake => ?_⟩
    cases hm'
    rw [Piece.meaning, Piece.written, hlong m hover, hcut m htake, hroom]
    decide
  | length m =>
    refine ⟨hdigits m, fun m' hm' hover htake => ?_⟩
    cases hm'
    rw [Piece.meaning, Piece.written, hlong m hover, hcut m htake, hroom]
    decide
  | orElse m text =>
    have htext := hdefault m text rfl
    have hmax : DEFAULT_MAX = 63 := rfl
    rcases Nat.lt_or_ge NAME_MAX m.length with hm | hm
    · have hmeaning : (Piece.orElse m text).meaning (single name value) code = text := by
        rw [Piece.meaning, hlong m hm, if_neg (by simp)]
      rw [hmeaning]
      by_cases htake : name = m.take NAME_MAX
      · have hne : value ≠ [] := by
          rintro rfl
          cases hroom
        rw [Piece.written, hcut m htake, if_pos hne, hroom]
        exact ⟨by omega, fun _ _ _ _ => by omega⟩
      · rw [Piece.written, hlookup, if_neg htake, if_neg (by simp), List.take_of_length_le htext]
        refine ⟨Nat.le_refl _, fun m' hm' _ htake' => ?_⟩
        cases hm'
        exact absurd htake' htake
    · rw [Piece.meaning, Piece.written, List.take_of_length_le hm, List.take_of_length_le htext]
      refine ⟨Nat.le_refl _, fun m' hm' hover _ => ?_⟩
      cases hm'
      omega
  | tilde => exact ⟨Nat.le_refl _, nofun⟩
  | byte c => exact ⟨Nat.le_refl _, nofun⟩

/-- Where the expansion is right with every table and size, nothing is cut. -/
theorem uncut_of_expands (h : ExpandsAlways command line code) : Uncut line code := by
  intro ps hps
  have hsame : ∀ t, ps.flatMap (Piece.written t code) = ps.flatMap (Piece.meaning t code) := by
    intro t
    obtain ⟨hfits, -⟩ := @expand_reads command t code ((ps.flatMap (Piece.written t code)).length + 1) line ps (Nat.succ_pos _) hps
    have hright := h t ((ps.flatMap (Piece.written t code)).length + 1)
    rw [hfits (Nat.lt_succ_self _)] at hright
    exact hright.output ps hps rfl
  have hbooted : ∀ piece ∈ ps, (∀ name text, piece = .orElse name text → text.length ≤ DEFAULT_MAX) ∧
      (piece = .exitCode → code ≠ Int32.minValue) := fun piece hp =>
    (written_booted piece).2 (length_eq_of_flatMap (fun q _ => (written_booted q).1) (hsame booted.table) piece hp)
  have hnames : ∀ piece ∈ ps, ∀ m, piece.name = some m → m.length ≤ NAME_MAX := by
    intro piece hp m hm
    by_contra hover
    have hbytes : ∀ c ∈ m.take NAME_MAX, c ≠ 0 := by
      obtain ⟨front, rest, hstands⟩ := hps.stands hp
      have hname : ∀ c ∈ m, isNameByte c = true := by
        cases piece with
        | value name => cases hm; exact hstands.2.1
        | braced name => cases hm; exact hstands
        | length name => cases hm; exact hstands
        | orElse name text => cases hm; exact hstands.1
        | _ => cases hm
      intro c hc hzero
      have hbyte := hname c (List.mem_of_mem_take hc)
      rw [hzero] at hbyte
      exact absurd hbyte (by decide)
    have hlength : (m.take NAME_MAX).length = NAME_MAX := by
      rw [List.length_take]
      omega
    have hvalue : ∀ c ∈ List.replicate 95 (120 : UInt8), c ≠ 0 := fun c hc => by
      rw [List.eq_of_mem_replicate hc]
      decide
    have hmeaning := fun q hq => @meaning_single code q (m.take NAME_MAX) (List.replicate 95 120) hbytes hlength hvalue (by rw [List.length_replicate])
      (hbooted q hq).2 (hbooted q hq).1
    have hequal := length_eq_of_flatMap (fun q hq => (hmeaning q hq).1) (hsame _).symm piece hp
    exact absurd hequal (Nat.ne_of_lt ((hmeaning piece hp).2 m hm (by omega) rfl))
  intro piece hp
  cases piece with
  | exitCode => exact (hbooted _ hp).2 rfl
  | value name => exact hnames _ hp name rfl
  | braced name => exact hnames _ hp name rfl
  | length name => exact hnames _ hp name rfl
  | orElse name text => exact ⟨hnames _ hp name rfl, (hbooted _ hp).1 name text rfl⟩
  | tilde => exact trivial
  | byte c => exact trivial

theorem NoSubstitution.of_isInfix (h : ¬ chars "$(" <:+: line) : NoSubstitution line := by
  intro ps rest hread hparen
  exact h (hparen.isInfix.trans ⟨ps.flatMap Piece.text, [], by rw [List.append_nil]; exact hread.split.symm⟩)

/-- A line that is no longer than a name may be. -/
theorem uncut_of_length_le (h : line.length ≤ NAME_MAX) (hcode : code ≠ Int32.minValue) : Uncut line code := by
  intro ps hread piece hp
  have hpiece : piece.text.length ≤ line.length := by
    obtain ⟨front, back, rfl⟩ := List.append_of_mem hp
    rw [hread.split, List.append_nil, List.flatMap_append, List.flatMap_cons, List.length_append, List.length_append]
    omega
  have hmax : NAME_MAX ≤ DEFAULT_MAX := by decide
  cases piece with
  | exitCode => exact hcode
  | value name =>
    have hname : name.length ≤ (Piece.value name).text.length := Nat.le_succ _
    exact hname.trans (hpiece.trans h)
  | braced name =>
    have hname : name.length ≤ (Piece.braced name).text.length := by simp [Piece.text]; omega
    exact hname.trans (hpiece.trans h)
  | length name =>
    have hname : name.length ≤ (Piece.length name).text.length := by simp [Piece.text]; omega
    exact hname.trans (hpiece.trans h)
  | orElse name text =>
    have hname : name.length ≤ (Piece.orElse name text).text.length := by simp [Piece.text]; omega
    have htext : text.length ≤ (Piece.orElse name text).text.length := by simp [Piece.text]; omega
    exact ⟨hname.trans (hpiece.trans h), (htext.trans (hpiece.trans h)).trans hmax⟩
  | tilde => exact trivial
  | byte c => exact trivial

/-- The expansion of a line is right with every table and size just where nothing is cut. -/
theorem expands_iff (command : Text → Option Text) (hsub : NoSubstitution line) : ExpandsAlways command line code ↔ Uncut line code :=
  ⟨uncut_of_expands, expands_of_uncut hsub⟩

theorem expands_short : ExpandsAlways (fun _ => none) (chars "echo $? ~/f") 1 :=
  (expands_iff (fun _ => none) (NoSubstitution.of_isInfix (by decide))).2 (uncut_of_length_le (by decide) (by decide))

theorem forall_ne_zero {text : Text} (h : text.all (fun c => c != 0) = true) : ∀ c ∈ text, c ≠ 0 :=
  fun c hc => bne_iff_ne.1 (List.all_eq_true.1 h c hc)

/-- `$ABCDEFGHIJKLMNOP` is not set, and gives the value of `ABCDEFGHIJKLMNO`. -/
theorem not_expands : ¬ Expands (chars "$ABCDEFGHIJKLMNOP") (single (chars "ABCDEFGHIJKLMNO") (chars "1")) 0 512
    (expandCommandSubstitutions (fun _ => none) (single (chars "ABCDEFGHIJKLMNO") (chars "1")) 0 512 (chars "$ABCDEFGHIJKLMNOP") []) := by
  have hread : Reads (chars "$ABCDEFGHIJKLMNOP") [.value (chars "ABCDEFGHIJKLMNOP")] [] :=
    @Reads.step (chars "$ABCDEFGHIJKLMNOP") [] (.value (chars "ABCDEFGHIJKLMNOP")) [] .start
      ⟨by decide, List.all_eq_true.1 (by decide), by decide⟩
  have hlookup := @valueText_single (chars "ABCDEFGHIJKLMNO") (chars "1") (forall_ne_zero (by decide)) (by decide)
    (forall_ne_zero (by decide)) (by decide)
  have hvalue : [Piece.value (chars "ABCDEFGHIJKLMNOP")].flatMap
      (Piece.written (single (chars "ABCDEFGHIJKLMNO") (chars "1")) 0) = chars "1" := by
    rw [List.flatMap_singleton, Piece.written, hlookup, if_pos (by decide)]
  have hrun := (@expand_reads (fun _ => none) (single (chars "ABCDEFGHIJKLMNO") (chars "1")) 0 512 _ _ (by decide) hread).1
    (by rw [hvalue]; decide)
  intro h
  have houtput := h.output _ hread (congrArg Prod.fst hrun)
  rw [hrun, hvalue, List.flatMap_singleton, Piece.meaning, hlookup, if_neg (by decide)] at houtput
  exact absurd houtput (by decide)

end Tg11Kernel.Shell
