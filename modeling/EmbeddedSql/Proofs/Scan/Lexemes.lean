import EmbeddedSql.Proofs.Scan.Lexing

namespace EmbeddedSql.Lexer

open Text Scan

def afterByte? (t : Text) : Option Text := t.slice? 1 t.bytes

def backslashLexeme? (rest : Text) : Option (TokenKind × Nat) :=
  let bs := utf8 rest
  match bs[1]? with
  | none => some (.punctuation, 1)
  | some b =>
      let d := Char.ofUInt8 b
      if isBlankEscape d then some (.blank, blankEnd bs 0)
      else if d == singleQuote || d == doubleQuote then some (.literal, escapedQuoteEnd b bs)
      else (afterByte? rest).bind fun after =>
        if after.head?.any isBlank then some (.punctuation, 1)
        else some (.punctuation, 1 + firstCharLength after)

def dollarLexeme? (bs : List UInt8) : Option (TokenKind × Nat) :=
  if bs[1]?.any fun b => (Char.ofUInt8 b).isDigit then some (.literal, runEnd Char.isDigit bs 1)
  else if bs[1]? = some openBrace.toUInt8 then (bracedEnd? bs 0 1).map (.literal, ·)
  else match dollarEnd bs with
    | 0 => some (.punctuation, 1)
    | n => some (.literal, n)

def colonLexeme? (rest : Text) : Option (TokenKind × Nat) :=
  let bs := utf8 rest
  if bs[1]? = some ':'.toUInt8 then some (.operator, 2)
  else if bs[1]?.any fun b => startsIdentifier (Char.ofUInt8 b) then
    (afterByte? rest).map fun after => (.literal, 1 + identifierEnd after)
  else some (.punctuation, 1)

def percentLexeme? (bs : List UInt8) : Option (TokenKind × Nat) :=
  if bs[1]? = some 's'.toUInt8 ∨ bs[1]? = some 'd'.toUInt8 ∨ bs[1]? = some 'b'.toUInt8 then
    some (.literal, 2)
  else if bs[1]? = some '('.toUInt8 then
    (placeholderEnd? bs).map fun
      | 0 => (.operator, 1)
      | n => (.literal, n)
  else some (.operator, 1)

/-- The kind and the length in bytes of the lexeme that begins a text, told from its bytes. There
is no answer where a slice of the text or an access to a byte would fail. -/
def lexOne? (rest : Text) : Option (TokenKind × Nat) :=
  let bs := utf8 rest
  bs.head?.bind fun b =>
    let c := Char.ofUInt8 b
    if isAsciiBlank c then some (.blank, blankEnd bs 0)
    else if c == backslash then backslashLexeme? rest
    else if c == singleQuote || c == doubleQuote || c == backtick then
      some (.literal, quotedEnd b true bs.tail)
    else if c == '-' && bs[1]? == some '-'.toUInt8 then some (.comment, lineCommentEnd bs 2)
    else if c == '/' && bs[1]? == some '*'.toUInt8 then some (.comment, blockCommentEnd bs)
    else if c.isDigit || (c == '.' && bs[1]?.any fun b => (Char.ofUInt8 b).isDigit) then
      some (.literal, numberEnd bs)
    else if c == '$' then dollarLexeme? bs
    else if c == openBrace then (bracedEnd? bs 0 0).map (.literal, ·)
    else if c == '?' then some (.literal, 1)
    else if c == ':' then colonLexeme? rest
    else if c == '@' && bs[1]?.any fun b => startsIdentifier (Char.ofUInt8 b) then
      (afterByte? rest).map fun after => (.literal, 1 + identifierEnd after)
    else if c == '%' then percentLexeme? bs
    else if isPunctuationChar c then some (.punctuation, 1)
    else if isOperatorChar c then some (.operator, operatorEnd bs)
    else if c.isAlpha || c == '_' then some (.identifier, identifierEnd rest)
    else if 0x80 ≤ b then
      if rest.head?.any isLetter then some (.identifier, identifierEnd rest)
      else some (.punctuation, firstCharLength rest)
    else some (.punctuation, 1)

/-- How much is cut off for a lexeme of `n` bytes: the first character, if there are none or they
end inside a character. -/
def cutLength (rest : Text) (n : Nat) : Nat :=
  if n = 0 ∨ ¬IsBoundary rest n then firstCharLength rest else n

theorem cutLength_pos (rest : Text) (n : Nat) : 0 < cutLength rest n := by
  rw [cutLength]
  split
  · cases rest with
    | nil => exact Nat.one_pos
    | cons c r => exact c.utf8Size_pos
  · omega

def tokensAt? (v : Vocabulary) (t : Text) (i : Nat) : Option (List Token) :=
  if i < t.bytes then
    (t.slice? i t.bytes).bind fun rest =>
      (lexOne? rest).bind fun (kind, n) =>
        (rest.slice? 0 (cutLength rest n)).bind fun raw =>
          (tokensAt? v t (i + cutLength rest n)).map (token v kind raw i :: ·)
  else some []
termination_by t.bytes - i
decreasing_by
  have hpos := cutLength_pos rest n
  omega

variable {c : Char} {r : Text}

theorem afterByte?_cons (hc : c.utf8Size = 1) (r : Text) : afterByte? (c :: r) = some r :=
  ((RestAt.start (c :: r)).next hc).slice?_bytes

def Measures (c : Char) (r : Text) (x : Option (TokenKind × Nat)) (y : TokenKind × Nat) : Prop :=
  x = some (y.1, bytes (c :: r.take y.2))

namespace Measures

theorem ite {p q : Prop} [Decidable p] [Decidable q] {x x' : Option (TokenKind × Nat)}
    {y y' : TokenKind × Nat} (hpq : p ↔ q) (h : q → Measures c r x y)
    (h' : ¬q → Measures c r x' y') : Measures c r (if p then x else x') (if q then y else y') := by
  by_cases hq : q
  · rw [if_pos (hpq.2 hq), if_pos hq]
    exact h hq
  · rw [if_neg (mt hpq.1 hq), if_neg hq]
    exact h' hq

theorem first (k : TokenKind) (hc : c.utf8Size = 1) : Measures c r (some (k, 1)) (k, 0) := by
  simp [Measures, hc]

theorem of_eq {k : TokenKind} {m n : Nat} (h : m = bytes (c :: r.take n)) :
    Measures c r (some (k, m)) (k, n) := by rw [h]; rfl

end Measures

section

variable {w : Char} (hw : w.utf8Size = 1)

include hw

theorem and_next {d : Char} (hd : d.utf8Size = 1) :
    (c == w && (utf8 (c :: r))[1]? == some d.toUInt8) = (c == w && r.head? == some d) := by
  by_cases hc : c = w
  · subst hc
    have hnext : RestAt (c :: r) 1 r := (RestAt.start _).next hw
    rw [Bool.eq_iff_iff, Bool.and_eq_true, Bool.and_eq_true, beq_iff_eq, beq_iff_eq, beq_iff_eq,
      hnext.byteAt_iff hd]
  · rw [beq_eq_false_iff_ne.2 hc, Bool.false_and, Bool.false_and]

theorem and_next_any {q : Char → Bool} (hq : ∀ c, q c = true → isWordChar c = true) :
    (c == w && (utf8 (c :: r))[1]?.any fun b => q (Char.ofUInt8 b)) =
      (c == w && r.head?.any q) := by
  by_cases hc : c = w
  · subst hc
    have hnext : RestAt (c :: r) 1 r := (RestAt.start _).next hw
    rw [hnext.any_getElem?_utf8 (agrees_of_word hq)]
  · rw [beq_eq_false_iff_ne.2 hc, Bool.false_and, Bool.false_and]

end

theorem utf8Size_of_isPunctuationChar (hc : isPunctuationChar c = true) : c.utf8Size = 1 :=
  forall_utf8Size (s := ['(', ')', ',', ';', '.', '[', ']']) rfl c (List.contains_iff_mem.1 hc)

theorem utf8Size_of_isOperatorChar (hc : isOperatorChar c = true) : c.utf8Size = 1 :=
  forall_utf8Size (s := ['=', '<', '>', '+', '-', '*', '/', '%', '^', '~', '!', '&', '|', '#', '@'])
    rfl c (List.contains_iff_mem.1 hc)

theorem lineComment_measures (hr : r.head? = some '-') :
    lineCommentEnd (utf8 ('-' :: r)) 2 =
      bytes ('-' :: r.take (1 + lineCommentTail (r.drop 1))) := by
  obtain ⟨r, rfl⟩ := List.head?_eq_some_iff.1 hr
  have hrest : RestAt ('-' :: '-' :: r) 2 r := ((RestAt.start _).next rfl).next rfl
  rw [lineCommentEnd_utf8 hrest, bytes_cons, add_bytes_take_cons]
  rfl

theorem blockComment_measures (hr : r.head? = some '*') :
    blockCommentEnd (utf8 ('/' :: r)) =
      bytes ('/' :: r.take (1 + blockCommentTail (r.drop 1))) := by
  obtain ⟨r, rfl⟩ := List.head?_eq_some_iff.1 hr
  refine RestAt.eq_of_drop ?_
  rw [Nat.add_comm 1, List.drop_succ_cons]
  exact blockCommentEnd_utf8 (((RestAt.start _).next rfl).next rfl)

theorem identifier_measures (hc : c.utf8Size = 1) (r : Text) (k : TokenKind) :
    Measures c r ((afterByte? (c :: r)).map fun after => (k, 1 + identifierEnd after))
      (k, identifierTail r) := by
  rw [afterByte?_cons hc, Option.map_some]
  exact .of_eq (by rw [identifierEnd_eq, bytes_cons, hc])

theorem backslashLexeme?_measures (r : Text) :
    Measures backslash r (backslashLexeme? (backslash :: r)) (afterBackslash r) := by
  have hstart := RestAt.start (backslash :: r)
  have hnext : RestAt (backslash :: r) 1 r := hstart.next rfl
  rw [backslashLexeme?, hnext.getElem?_utf8]
  cases r with
  | nil => exact .first _ rfl
  | cons d r =>
      obtain ⟨b, hb, hhead⟩ := exists_firstByte d r
      have htest {q : Char → Bool} (hq : ∀ c, q c = true → c.utf8Size = 1) :
          q (Char.ofUInt8 b) = q d := agrees_of_single hq d b hb
      have hquote : (Char.ofUInt8 b == singleQuote || Char.ofUInt8 b == doubleQuote) =
          (d == singleQuote || d == doubleQuote) := by
        rw [htest fun _ => utf8Size_of_beq (w := singleQuote) rfl,
          htest fun _ => utf8Size_of_beq (w := doubleQuote) rfl]
      rw [hhead, afterByte?_cons rfl]
      simp only [Option.bind_some, afterBackslash, List.head?_cons, Option.any_some,
        htest fun _ => utf8Size_of_isBlankEscape, hquote]
      refine .ite Iff.rfl (fun hd => .of_eq ?_) fun _ => .ite Iff.rfl (fun hd => .of_eq ?_) fun _ =>
        .ite Iff.rfl (fun hd => .first _ rfl) fun _ => .of_eq ?_
      · have htail : blankTail (backslash :: d :: r) = 1 + (1 + blankTail r) := by
          rw [blankTail, if_neg (by decide), if_pos (by simp [hd])]
          omega
        rw [blankEnd_utf8 hstart, htail, add_bytes_take_cons, bytes_cons, Nat.zero_add]
      · have hsize : d.utf8Size = 1 := by
          rcases Bool.or_eq_true_iff.1 hd with hd | hd
          · exact utf8Size_of_beq rfl hd
          · exact utf8Size_of_beq rfl hd
        rw [eq_of_mem_utf8EncodeChar hsize hb, escapedQuoteEnd_utf8 hsize, Nat.add_comm 1, List.take_succ_cons]
      · rfl

theorem dollarLexeme?_measures (r : Text) :
    Measures '$' r (dollarLexeme? (utf8 ('$' :: r))) (afterDollar r) := by
  have hnext : RestAt ('$' :: r) 1 r := (RestAt.start _).next rfl
  rw [dollarLexeme?, hnext.any_getElem?_utf8 (agrees_of_word fun _ => isWordChar_of_isDigit)]
  simp only [hnext.byteAt_iff (w := openBrace) rfl]
  cases r with
  | nil => exact .first _ rfl
  | cons d r =>
    refine .ite Iff.rfl (fun hd => .of_eq ?_) fun _ => .ite (by simp) (fun hd => ?_) fun _ => ?_
    · refine RestAt.eq_of_drop ?_
      rw [digitsTail, drop_takeWhile_length]
      exact runEnd_utf8 (agrees_of_word fun _ => isWordChar_of_isDigit) hnext
    · obtain rfl := beq_iff_eq.1 hd
      rw [bracedEnd?_opening hnext]
      refine .of_eq ?_
      rw [Nat.add_comm 1 (bracedTail 1 r)]
      rfl
    · rw [dollarEnd_utf8]
      cases dollarTail? (d :: r) with
      | none => exact .first _ rfl
      | some n =>
        have hpos : bytes ('$' :: (d :: r).take n) = bytes ((d :: r).take n) + 1 :=
          Nat.add_comm 1 _
        rw [Option.map_some, Option.getD_some, hpos]
        exact .of_eq hpos.symm

theorem colonLexeme?_measures (r : Text) :
    Measures ':' r (colonLexeme? (':' :: r)) (afterColon r) := by
  have hnext : RestAt (':' :: r) 1 r := (RestAt.start _).next rfl
  have hstarts := hnext.any_getElem?_utf8 (agrees_of_word fun _ => isWordChar_of_startsIdentifier)
  rw [colonLexeme?]
  simp only [hnext.byteAt_iff (w := ':') rfl, hstarts]
  cases r with
  | nil => exact .first _ rfl
  | cons d r =>
    refine .ite (by simp) (fun hd => .of_eq ?_) fun _ => .ite Iff.rfl (fun hd => ?_) fun _ => ?_
    · rw [beq_iff_eq.1 hd]
      rfl
    · exact identifier_measures rfl _ _
    · exact .first _ rfl

theorem percentLexeme?_measures (r : Text) :
    Measures '%' r (percentLexeme? (utf8 ('%' :: r))) (afterPercent r) := by
  have hnext : RestAt ('%' :: r) 1 r := (RestAt.start _).next rfl
  rw [percentLexeme?]
  simp only [hnext.byteAt_iff (w := 's') rfl, hnext.byteAt_iff (w := 'd') rfl,
    hnext.byteAt_iff (w := 'b') rfl, hnext.byteAt_iff (w := '(') rfl]
  cases r with
  | nil => exact .first _ rfl
  | cons d r =>
    refine .ite (by simp [or_assoc]) (fun hd => .of_eq ?_) fun _ => ?_
    · have hsize : d.utf8Size = 1 := by
        simp only [Bool.or_eq_true, beq_iff_eq] at hd
        rcases hd with (rfl | rfl) | rfl <;> rfl
      simp [hsize]
      rfl
    · by_cases hd : d = '('
      · subst hd
        rw [if_pos (by rfl), placeholderEnd?_utf8]
        cases namedPlaceholderTail? ('(' :: r) with
        | none => exact .first _ rfl
        | some n =>
          have hpos : bytes ('%' :: ('(' :: r).take n) = bytes (('(' :: r).take n) + 1 :=
            Nat.add_comm 1 _
          simp only [Option.map_some, Option.getD_some, hpos]
          exact .of_eq hpos.symm
      · have hnone : namedPlaceholderTail? (d :: r) = none := by
          rw [namedPlaceholderTail?]
          exact fun _ h => hd (List.cons.inj h).1
        rw [if_neg (by simpa using hd), hnone]
        exact .first _ rfl

theorem wordLexeme_measures {b : UInt8} (hb : b ∈ String.utf8EncodeChar c) (r : Text) :
    Measures c r
      (if c.isAlpha || c == '_' then some (.identifier, identifierEnd (c :: r))
        else if 0x80 ≤ b then
          if (c :: r).head?.any isLetter then some (.identifier, identifierEnd (c :: r))
          else some (.punctuation, firstCharLength (c :: r))
        else some (.punctuation, 1))
      (if isLetter c || c == '_' then (.identifier, identifierTail r) else (.punctuation, 0)) := by
  have hidentifier (hc : (isLetter c || c == '_') = true) :
      Measures c r (some (.identifier, identifierEnd (c :: r)))
        (.identifier, identifierTail r) := by
    have hname : isIdentifierChar c = true := by
      rcases Bool.or_eq_true_iff.1 hc with hc | hc <;> simp [isIdentifierChar, isAlphanumeric, hc]
    exact .of_eq (by rw [identifierEnd_eq, identifierTail, List.takeWhile_cons_of_pos hname]; rfl)
  by_cases hsize : c.utf8Size = 1
  · have hle : c.toNat ≤ 0x7f := Char.utf8Size_eq_one_iff.1 hsize
    have hletter : isLetter c = c.isAlpha := by
      have hascii : isAscii c = true := decide_eq_true (by omega)
      rw [isLetter, hascii, Bool.not_true, Bool.false_and, Bool.or_false]
    have hsmall : ¬(0x80 : UInt8) ≤ b := by
      rw [eq_of_mem_utf8EncodeChar hsize hb, UInt8.le_iff_toNat_le, toNat_toUInt8 hsize]
      exact Nat.not_le.2 (Nat.lt_succ_of_le hle)
    rw [if_neg hsmall, ← hletter]
    exact .ite Iff.rfl hidentifier fun _ => .first _ hsize
  · have hword : ¬(c.isAlpha || c == '_') = true := fun h =>
      hsize (utf8Size_of_isWordChar (isWordChar_of_startsIdentifier h))
    have hlarge : (0x80 : UInt8) ≤ b := UInt8.le_iff_toNat_le.2 (le_of_mem_utf8EncodeChar hsize hb)
    rw [if_neg hword, if_pos hlarge]
    refine .ite ?_ hidentifier fun _ => .of_eq rfl
    have hline : (c == '_') = false := beq_eq_false_iff_ne.2 fun h => hsize (h ▸ rfl)
    rw [hline, Bool.or_false, List.head?_cons, Option.any_some]

theorem lexOne?_measures (c : Char) (r : Text) : Measures c r (lexOne? (c :: r)) (lexeme c r) := by
  obtain ⟨b, hb, hhead⟩ := exists_firstByte c r
  have htest {q : Char → Bool} (hq : ∀ c, q c = true → c.utf8Size = 1) :
      q (Char.ofUInt8 b) = q c := agrees_of_single hq c b hb
  have hchar {w : Char} (hw : w.utf8Size = 1) : (Char.ofUInt8 b == w) = (c == w) :=
    htest (q := (· == w)) fun _ => utf8Size_of_beq hw
  have hstart := RestAt.start (c :: r)
  rw [lexOne?, lexeme]
  simp only [hhead, Option.bind_some, htest fun _ => utf8Size_of_isAsciiBlank,
    htest fun _ => utf8Size_of_isPunctuationChar, htest fun _ => utf8Size_of_isOperatorChar,
    htest fun _ h => utf8Size_of_isWordChar (isWordChar_of_isDigit h),
    htest fun _ h => utf8Size_of_isWordChar (isWordChar_of_isAlpha h),
    hchar (w := backslash) rfl, hchar (w := singleQuote) rfl, hchar (w := doubleQuote) rfl,
    hchar (w := backtick) rfl, hchar (w := '-') rfl, hchar (w := '/') rfl, hchar (w := '.') rfl,
    hchar (w := '$') rfl, hchar (w := openBrace) rfl, hchar (w := '?') rfl, hchar (w := ':') rfl,
    hchar (w := '@') rfl, hchar (w := '%') rfl, hchar (w := '_') rfl,
    and_next (w := '-') (d := '-') rfl rfl, and_next (w := '/') (d := '*') rfl rfl,
    and_next_any (w := '.') rfl fun _ => isWordChar_of_isDigit,
    and_next_any (w := '@') rfl fun _ => isWordChar_of_startsIdentifier]
  refine .ite Iff.rfl (fun hc => .of_eq ?_) fun _ => ?_
  · rw [blankEnd_utf8 hstart, blankTail_cons_blank hc, add_bytes_take_cons, bytes_cons,
      Nat.zero_add]
  refine .ite Iff.rfl (fun hc => ?_) fun _ => ?_
  · rw [beq_iff_eq.1 hc]
    exact backslashLexeme?_measures r
  refine .ite Iff.rfl (fun hc => .of_eq ?_) fun _ => ?_
  · have hsize : c.utf8Size = 1 ∧ c ≠ backslash := by
      simp only [Bool.or_eq_true, beq_iff_eq] at hc
      rcases hc with (rfl | rfl) | rfl <;> exact ⟨rfl, by decide⟩
    have htail : (utf8 (c :: r)).tail = utf8 r := by rw [utf8_cons, utf8EncodeChar_eq hsize.1]; rfl
    rw [eq_of_mem_utf8EncodeChar hsize.1 hb, htail, quotedEnd_utf8 hsize.1 hsize.2]
  refine .ite Iff.rfl (fun hc => .of_eq ?_) fun _ => ?_
  · obtain ⟨hc, hr⟩ := Bool.and_eq_true_iff.1 hc
    rw [beq_iff_eq.1 hc, lineComment_measures (beq_iff_eq.1 hr)]
  refine .ite Iff.rfl (fun hc => .of_eq ?_) fun _ => ?_
  · obtain ⟨hc, hr⟩ := Bool.and_eq_true_iff.1 hc
    rw [beq_iff_eq.1 hc, blockComment_measures (beq_iff_eq.1 hr)]
  refine .ite Iff.rfl (fun hc => .of_eq (numberEnd_utf8 c r ?_)) fun _ => ?_
  · exact (Bool.or_eq_true_iff.1 hc).imp_right fun h => beq_iff_eq.1 (Bool.and_eq_true_iff.1 h).1
  refine .ite Iff.rfl (fun hc => ?_) fun _ => ?_
  · rw [beq_iff_eq.1 hc]
    exact dollarLexeme?_measures r
  refine .ite Iff.rfl (fun hc => ?_) fun _ => ?_
  · obtain rfl := beq_iff_eq.1 hc
    rw [bracedEnd?_opening hstart, Nat.zero_add]
    exact .of_eq rfl
  refine .ite Iff.rfl (fun hc => .first _ (utf8Size_of_beq rfl hc)) fun _ => ?_
  refine .ite Iff.rfl (fun hc => ?_) fun _ => ?_
  · rw [beq_iff_eq.1 hc]
    exact colonLexeme?_measures r
  refine .ite Iff.rfl (fun hc => ?_) fun _ => ?_
  · exact identifier_measures (utf8Size_of_beq rfl (Bool.and_eq_true_iff.1 hc).1) r _
  refine .ite Iff.rfl (fun hc => ?_) fun _ => ?_
  · rw [beq_iff_eq.1 hc]
    exact percentLexeme?_measures r
  refine .ite Iff.rfl (fun hc => .first _ (utf8Size_of_isPunctuationChar hc)) fun _ => ?_
  refine .ite Iff.rfl (fun hc => .of_eq ?_) fun _ => ?_
  · exact operatorEnd_utf8 c r (utf8Size_of_isOperatorChar hc)
  exact wordLexeme_measures hb r

theorem cutLength_lexeme (c : Char) (r : Text) :
    cutLength (c :: r) (bytes (c :: r.take (lexeme c r).2)) =
      bytes (c :: r.take (lexeme c r).2) := by
  have hcut := (RestAt.start (c :: r)).drop ((lexeme c r).2 + 1)
  have hpos := c.utf8Size_pos
  rw [List.take_succ_cons, Nat.zero_add] at hcut
  rw [cutLength, if_neg]
  rintro (hempty | hboundary)
  · rw [bytes_cons] at hempty
    omega
  · exact hboundary hcut.isBoundary

end EmbeddedSql.Lexer
