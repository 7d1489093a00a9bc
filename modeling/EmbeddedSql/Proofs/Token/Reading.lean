import EmbeddedSql.Proofs.Token.Locality

namespace EmbeddedSql.Lexer

open Text

def ifNext (q : Char → Bool) (F G : Text → TokenKind × Nat) (t : Text) : TokenKind × Nat :=
  if t.head?.any q then F t else G t

inductive Initial : Char → (Text → TokenKind × Nat) → Prop
  | blank {c} : isAsciiBlank c = true → Initial c fun t => (.blank, blankTail t)
  | backslash : Initial backslash afterBackslash
  | quote {c} : c = singleQuote ∨ c = doubleQuote ∨ c = backtick →
      Initial c fun t => (.literal, quotedTail c true t)
  | dash : Initial '-' (ifNext (· == '-') (fun t => (.comment, 1 + lineCommentTail (t.drop 1)))
      fun t => (.operator, operatorTail '-' t))
  | slash : Initial '/' (ifNext (· == '*') (fun t => (.comment, 1 + blockCommentTail (t.drop 1)))
      fun t => (.operator, operatorTail '/' t))
  | digit {c} : c.isDigit = true → Initial c fun t => (.literal, numberTail c t)
  | point : Initial '.' (ifNext Char.isDigit (fun t => (.literal, numberTail '.' t))
      fun _ => (.punctuation, 0))
  | dollar : Initial '$' afterDollar
  | brace : Initial openBrace fun t => (.literal, bracedTail 1 t)
  | question : Initial '?' fun _ => (.literal, 0)
  | colon : Initial ':' afterColon
  | atSign : Initial '@' (ifNext startsIdentifier (fun t => (.literal, identifierTail t))
      fun t => (.operator, operatorTail '@' t))
  | percent : Initial '%' afterPercent
  | punctuation {c} : c ∈ ['(', ')', ',', ';', '[', ']'] → Initial c fun _ => (.punctuation, 0)
  | operator {c} : c ∈ ['=', '<', '>', '+', '*', '^', '~', '!', '&', '|', '#'] →
      Initial c fun t => (.operator, operatorTail c t)
  | letter {c} : isLetter c = true ∨ c = '_' → Initial c fun t => (.identifier, identifierTail t)
  | other {c} : isLetter c = false → c ≠ '_' → Initial c fun _ => (.punctuation, 0)

theorem lexeme_dash : lexeme '-' =
    ifNext (· == '-') (fun t => (.comment, 1 + lineCommentTail (t.drop 1)))
      fun t => (.operator, operatorTail '-' t) := by
  funext t
  cases t <;> rfl

theorem lexeme_slash : lexeme '/' =
    ifNext (· == '*') (fun t => (.comment, 1 + blockCommentTail (t.drop 1)))
      fun t => (.operator, operatorTail '/' t) := by
  funext t
  cases t <;> rfl

theorem lexeme_point : lexeme '.' =
    ifNext Char.isDigit (fun t => (.literal, numberTail '.' t)) fun _ => (.punctuation, 0) := rfl

theorem lexeme_at : lexeme '@' =
    ifNext startsIdentifier (fun t => (.literal, identifierTail t))
      fun t => (.operator, operatorTail '@' t) := rfl

theorem lexeme_initial (c : Char) : Initial c (lexeme c) := by
  by_cases hdash : c = '-'
  · rw [hdash, lexeme_dash]; exact .dash
  by_cases hslash : c = '/'
  · rw [hslash, lexeme_slash]; exact .slash
  by_cases hpoint : c = '.'
  · rw [hpoint, lexeme_point]; exact .point
  by_cases hat : c = '@'
  · rw [hat, lexeme_at]; exact .atSign
  have hlexeme : lexeme c = fun r =>
      if isAsciiBlank c then (.blank, blankTail r)
      else if c == backslash then afterBackslash r
      else if c == singleQuote || c == doubleQuote || c == backtick then
        (.literal, quotedTail c true r)
      else if c.isDigit then (.literal, numberTail c r)
      else if c == '$' then afterDollar r
      else if c == openBrace then (.literal, bracedTail 1 r)
      else if c == '?' then (.literal, 0)
      else if c == ':' then afterColon r
      else if c == '%' then afterPercent r
      else if isPunctuationChar c then (.punctuation, 0)
      else if isOperatorChar c then (.operator, operatorTail c r)
      else if isLetter c || c == '_' then (.identifier, identifierTail r)
      else (.punctuation, 0) := by
    funext r
    simp only [lexeme, beq_eq_false_iff_ne.2 hdash, beq_eq_false_iff_ne.2 hslash,
      beq_eq_false_iff_ne.2 hpoint, beq_eq_false_iff_ne.2 hat, Bool.false_and, Bool.or_false,
      Bool.false_eq_true, if_false]
  rw [hlexeme]
  by_cases h : isAsciiBlank c = true
  · simp only [h, if_true]; exact .blank h
  simp only [h, Bool.false_eq_true, if_false]
  by_cases h : c = backslash
  · subst h; exact .backslash
  simp only [beq_eq_false_iff_ne.2 h, Bool.false_eq_true, if_false]
  by_cases h : (c == singleQuote || c == doubleQuote || c == backtick) = true
  · simp only [h, if_true]
    exact .quote (by simpa [or_assoc] using h)
  simp only [h, Bool.false_eq_true, if_false]
  by_cases h : c.isDigit = true
  · simp only [h, if_true]; exact .digit h
  have hdigit := h
  simp only [h, Bool.false_eq_true, if_false]
  by_cases h : c = '$'
  · subst h; exact .dollar
  simp only [beq_eq_false_iff_ne.2 h, Bool.false_eq_true, if_false]
  by_cases h : c = openBrace
  · subst h; exact .brace
  simp only [beq_eq_false_iff_ne.2 h, Bool.false_eq_true, if_false]
  by_cases h : c = '?'
  · subst h; exact .question
  simp only [beq_eq_false_iff_ne.2 h, Bool.false_eq_true, if_false]
  by_cases h : c = ':'
  · subst h; exact .colon
  simp only [beq_eq_false_iff_ne.2 h, Bool.false_eq_true, if_false]
  by_cases h : c = '%'
  · subst h; exact .percent
  have hpercent := h
  simp only [beq_eq_false_iff_ne.2 h, Bool.false_eq_true, if_false]
  by_cases h : isPunctuationChar c = true
  · simp only [h, if_true]
    exact .punctuation (by simpa [isPunctuationChar, hpoint] using h)
  simp only [h, Bool.false_eq_true, if_false]
  by_cases h : isOperatorChar c = true
  · simp only [h, if_true]
    exact .operator (by simpa [isOperatorChar, hdash, hslash, hat, hpercent] using h)
  simp only [h, Bool.false_eq_true, if_false]
  by_cases h : (isLetter c || c == '_') = true
  · simp only [h, if_true]
    exact .letter (by simpa using h)
  · simp only [h, Bool.false_eq_true, if_false]
    simp only [Bool.or_eq_true, beq_iff_eq, not_or, Bool.not_eq_true] at h
    exact .other h.1 h.2

theorem not_isLetter_of_isDigit {c : Char} (hc : c.isDigit = true) : isLetter c = false := by
  have hle : 48 ≤ c.toNat ∧ c.toNat ≤ 57 := Char.isDigit_iff_toNat.1 hc
  have hascii : isAscii c = true := decide_eq_true (by omega)
  have halpha : c.isAlpha = false := by
    rw [Bool.eq_false_iff, Ne, isAlpha_iff_toNat]
    omega
  rw [isLetter, halpha, hascii]
  rfl

theorem lexeme_word {c : Char} (hc : isLetter c = true ∨ c = '_') :
    lexeme c = fun t => (.identifier, identifierTail t) := by
  have hpunctuation : (['(', ')', ',', ';', '[', ']'].all fun d =>
      !isLetter d && d != '_') = true := by decide
  have hoperator : (['=', '<', '>', '+', '*', '^', '~', '!', '&', '|', '#'].all fun d =>
      !isLetter d && d != '_') = true := by decide
  have hinitial := lexeme_initial c
  generalize lexeme c = F at hinitial ⊢
  cases hinitial with
  | letter => rfl
  | blank h =>
      simp only [isAsciiBlank, Bool.or_eq_true, beq_iff_eq] at h
      rcases h with (((rfl | rfl) | rfl) | rfl) | rfl <;> exact absurd hc (by decide)
  | quote h => rcases h with rfl | rfl | rfl <;> exact absurd hc (by decide)
  | digit h =>
      rcases hc with hc | rfl
      · rw [not_isLetter_of_isDigit h] at hc
        simp at hc
      · exact absurd h (by decide)
  | punctuation h =>
      have := List.all_eq_true.1 hpunctuation c h
      simp_all
  | operator h =>
      have := List.all_eq_true.1 hoperator c h
      simp_all
  | other h₁ h₂ => exact absurd hc (by simp [h₁, h₂])
  | _ => exact absurd hc (by decide)

def isNeutral (c : Char) : Bool := [' ', '\n', ',', ';', ')', ']', ':'].contains c

structure Neutral (c : Char) : Prop where
  number : endsNumber c = true
  name : isIdentifierChar c = false
  operator : isOperatorChar c = false
  digit : c.isDigit = false
  initial : startsIdentifier c = false
  word : isWordChar c = false
  mark : c ∉ [singleQuote, doubleQuote, backtick, '$', openBrace, '(', 's', 'd', 'b']

theorem isNeutral_excludes {c : Char} (hc : isNeutral c = true) : Neutral c := by
  simp only [isNeutral, List.contains_iff_mem, List.mem_cons, List.not_mem_nil, or_false] at hc
  rcases hc with rfl | rfl | rfl | rfl | rfl | rfl | rfl
  all_goals exact ⟨by decide, by decide, by decide, by decide, by decide, by decide, by decide⟩

theorem isIdentifierChar_of_startsIdentifier {c : Char} (hc : startsIdentifier c = true) :
    isIdentifierChar c = true := by
  simp only [startsIdentifier, Bool.or_eq_true] at hc
  rcases hc with hc | hc <;> simp [isIdentifierChar, isAlphanumeric, isLetter, hc]

theorem identifierTail_ne_zero {c : Char} (hc : startsIdentifier c = true) (t : Text) :
    identifierTail (c :: t) ≠ 0 := by
  simp [identifierTail, isIdentifierChar_of_startsIdentifier hc]

theorem identifierTail_local {r rest rest' : Text} (h : identifierTail (r ++ rest) = r.length)
    (hrest' : ∀ d ∈ rest'.head?, isIdentifierChar d = false) :
    identifierTail (r ++ rest') = r.length := by
  rw [identifierTail, takeWhile_local h hrest']

theorem digitsTail_local {r rest rest' : Text} (h : digitsTail (r ++ rest) = r.length)
    (hrest' : ∀ d ∈ rest'.head?, d.isDigit = false) : digitsTail (r ++ rest') = r.length := by
  rw [digitsTail, takeWhile_local h hrest']

theorem drop_takeWhile_length (p : Char → Bool) (t : Text) :
    t.drop (t.takeWhile p).length = t.dropWhile p := by
  calc t.drop (t.takeWhile p).length
      = (t.takeWhile p ++ t.dropWhile p).drop (t.takeWhile p).length := by
        rw [List.takeWhile_append_dropWhile]
    _ = t.dropWhile p := List.drop_left ..

theorem dollarTail?_tag {tag : Text} (htag : ∀ c ∈ tag, isWordChar c = true) (body : Text) :
    dollarTail? (tag ++ '$' :: body) =
      some (tag.length + 1 + delimitedTail ('$' :: tag ++ ['$']) body) := by
  have htake : (tag ++ '$' :: body).takeWhile isWordChar = tag := by
    rw [List.takeWhile_append_of_pos htag, List.takeWhile_cons_of_neg (by decide), List.append_nil]
  simp [dollarTail?, htake]

theorem dollarTail?_eq_some {t : Text} {n : Nat} (h : dollarTail? t = some n) :
    ∃ tag body, (∀ c ∈ tag, isWordChar c = true) ∧ t = tag ++ '$' :: body ∧
      n = tag.length + 1 + delimitedTail ('$' :: tag ++ ['$']) body := by
  have hall : ∀ c ∈ t.takeWhile isWordChar, isWordChar c = true :=
    List.all_eq_true.1 List.all_takeWhile
  have hsplit := List.takeWhile_append_dropWhile (p := isWordChar) (l := t)
  simp only [dollarTail?, drop_takeWhile_length] at h
  split at h
  next body hdrop =>
    rw [hdrop] at hsplit
    exact ⟨_, body, hall, hsplit.symm, (Option.some.inj h).symm⟩
  · simp at h

theorem dollarTail?_neutral {t : Text} (ht : ∀ d ∈ t.head?, isNeutral d = true) :
    dollarTail? t = none := by
  cases t with
  | nil => rfl
  | cons d t =>
      have hd := isNeutral_excludes (ht d (by simp))
      have hmark := hd.mark
      have hdollar : d ≠ '$' := by
        rintro rfl
        simp at hmark
      simp [dollarTail?, hd.word, hdollar]

theorem split_after {r rest s body : Text} (h : r ++ rest = s ++ body) (hle : s.length ≤ r.length) :
    ∃ r', r = s ++ r' ∧ body = r' ++ rest := by
  rcases List.append_eq_append_iff.1 h with ⟨u, hs, hrest⟩ | ⟨u, hr, hbody⟩
  · have hu : u = [] := by
      rw [hs, List.length_append] at hle
      exact List.length_eq_zero_iff.1 (by omega)
    subst hu
    exact ⟨[], by simpa using hs.symm, by simpa using hrest.symm⟩
  · exact ⟨u, hr, hbody⟩

theorem dollarTail?_local {r rest : Text} (hrest : rest ≠ [])
    (h : dollarTail? (r ++ rest) = some r.length) (rest' : Text) :
    dollarTail? (r ++ rest') = some r.length := by
  obtain ⟨tag, body, htag, hsplit, hlength⟩ := dollarTail?_eq_some h
  have hopened : r ++ rest = (tag ++ ['$']) ++ body := by simpa using hsplit
  obtain ⟨r', hr, hbody⟩ := split_after hopened (by simp; omega)
  subst hr hbody
  have hinside : delimitedTail ('$' :: tag ++ ['$']) (r' ++ rest) = r'.length := by
    simp at hlength ⊢
    omega
  have hclosed := delimitedTail_local hrest hinside (by simp) rest'
  have hsome := dollarTail?_tag htag (r' ++ rest')
  rw [hclosed] at hsome
  simpa [Nat.add_comm, Nat.add_left_comm] using hsome

theorem namedPlaceholderTail?_name {name : Text} {d : Char} (hname : name ≠ [])
    (hword : ∀ c ∈ name, isWordChar c = true) (hd : d.isAlpha = true) (tail : Text) :
    namedPlaceholderTail? ('(' :: (name ++ ')' :: d :: tail)) = some (name.length + 3) := by
  have htake : (name ++ ')' :: d :: tail).takeWhile isWordChar = name := by
    rw [List.takeWhile_append_of_pos hword, List.takeWhile_cons_of_neg (by decide), List.append_nil]
  simp [namedPlaceholderTail?, htake, hd, hname]

theorem namedPlaceholderTail?_eq_some {t : Text} {n : Nat} (h : namedPlaceholderTail? t = some n) :
    ∃ name d tail, name ≠ [] ∧ (∀ c ∈ name, isWordChar c = true) ∧ d.isAlpha = true ∧
      t = '(' :: (name ++ ')' :: d :: tail) ∧ n = name.length + 3 := by
  unfold namedPlaceholderTail? at h
  split at h
  next r =>
    have hall : ∀ c ∈ r.takeWhile isWordChar, isWordChar c = true :=
      List.all_eq_true.1 List.all_takeWhile
    have hsplit := List.takeWhile_append_dropWhile (p := isWordChar) (l := r)
    simp only [drop_takeWhile_length] at h
    split at h
    next d tail hdrop =>
      rw [hdrop] at hsplit
      obtain ⟨hcond, hn⟩ := Option.ite_none_right_eq_some.1 h
      simp only [Bool.and_eq_true, Bool.not_eq_true', List.isEmpty_eq_false_iff] at hcond
      exact ⟨_, d, tail, hcond.1, hall, hcond.2, by rw [hsplit], (Option.some.inj hn).symm⟩
    · simp at h
  · simp at h

theorem namedPlaceholderTail?_local {r rest : Text}
    (h : namedPlaceholderTail? (r ++ rest) = some r.length) (rest' : Text) :
    namedPlaceholderTail? (r ++ rest') = some r.length := by
  obtain ⟨name, d, tail, hname, hword, hd, hsplit, hlength⟩ := namedPlaceholderTail?_eq_some h
  have hopened : r ++ rest = ('(' :: (name ++ [')', d])) ++ tail := by simpa using hsplit
  obtain ⟨r', hr, hbody⟩ := split_after hopened (by simp; omega)
  have hr' : r' = [] := by
    simp only [hr, List.length_append, List.length_cons, List.length_nil] at hlength
    exact List.length_eq_zero_iff.1 (by omega)
  subst hr hr'
  simpa using namedPlaceholderTail?_name hname hword hd rest'

theorem longOperators_spelling {op : Text} (hop : op ∈ longOperators) :
    2 ≤ op.length ∧ (op = [':', ':'] ∨ ∀ c ∈ op, isOperatorChar c = true) := by
  have hall : (longOperators.all fun op =>
      decide (2 ≤ op.length) && (op == [':', ':'] || op.all isOperatorChar)) = true := by decide
  simpa using List.all_eq_true.1 hall op hop

theorem prefix_of_stops {p : Char → Bool} {s u rest : Text} (hs : ∀ c ∈ s, p c = true)
    (hrest : ∀ d ∈ rest.head?, p d = false) (h : s <+: u ++ rest) : s <+: u := by
  induction u generalizing s with
  | nil =>
      cases s with
      | nil => exact List.nil_prefix
      | cons c s =>
          obtain ⟨tail, htail⟩ := h
          have hc := hrest c (by rw [← List.nil_append rest, ← htail]; rfl)
          rw [hs c (by simp)] at hc
          simp at hc
  | cons d u ih =>
      cases s with
      | nil => exact List.nil_prefix
      | cons c s =>
          obtain ⟨rfl, htail⟩ := List.cons_prefix_cons.1 h
          exact List.cons_prefix_cons.2 ⟨rfl, ih (fun x hx => hs x (by simp [hx])) htail⟩

theorem operatorTail_local {c : Char} {r rest rest' : Text} (hc : c ≠ ':')
    (h : operatorTail c (r ++ rest) = r.length)
    (hrest' : ∀ d ∈ rest'.head?, isOperatorChar d = false) :
    operatorTail c (r ++ rest') = r.length := by
  -- an operator that begins the new text lies within `c :: r`, so it began the old text too
  have hwithin : ∀ op ∈ longOperators, startsWith (c :: (r ++ rest')) op = true →
      op <+: c :: r := by
    intro op hop hstart
    have hpre : op <+: (c :: r) ++ rest' := List.isPrefixOf_iff_prefix.1 hstart
    rcases (longOperators_spelling hop).2 with rfl | hall
    · exact absurd (List.cons_prefix_cons.1 hpre).1.symm hc
    · exact prefix_of_stops hall hrest' hpre
  have hold : ∀ op ∈ longOperators, startsWith (c :: (r ++ rest')) op = true →
      startsWith (c :: (r ++ rest)) op = true := fun op hop hstart =>
    List.isPrefixOf_iff_prefix.2 ((hwithin op hop hstart).trans (List.prefix_append (c :: r) rest))
  unfold operatorTail at h ⊢
  cases hfind : longOperators.find? (startsWith (c :: (r ++ rest))) with
  | none =>
      have hnone : longOperators.find? (startsWith (c :: (r ++ rest'))) = none := by
        rw [List.find?_eq_none] at hfind ⊢
        exact fun op hop hstart => hfind op hop (hold op hop hstart)
      rw [hfind] at h
      rw [hnone]
      exact h
  | some op =>
      rw [hfind] at h
      obtain ⟨hop, before, after, hsplit, hbefore⟩ := List.find?_eq_some_iff_append.1 hfind
      have hmem : op ∈ longOperators := by simp [hsplit]
      have hlength := (longOperators_spelling hmem).1
      have hcount : op.length - 1 = r.length := h
      have hwhole : op = c :: r := by
        have hpre : op <+: (c :: r) ++ rest := List.isPrefixOf_iff_prefix.1 hop
        have hle : op.length = (c :: r).length := by simp only [List.length_cons]; omega
        exact (List.prefix_of_prefix_length_le hpre (List.prefix_append _ _)
          (Nat.le_of_eq hle)).eq_of_length hle
      have hsome : longOperators.find? (startsWith (c :: (r ++ rest'))) = some op := by
        refine List.find?_eq_some_iff_append.2 ⟨?_, before, after, hsplit, fun op' hop' => ?_⟩
        · rw [hwhole]
          exact List.isPrefixOf_iff_prefix.2 (List.prefix_append (c :: r) rest')
        · rw [Bool.not_eq_true']
          have hno : startsWith (c :: (r ++ rest)) op' = false := by simpa using hbefore op' hop'
          exact Bool.eq_false_iff.2 fun hstart => Bool.eq_false_iff.1 hno
            (hold op' (by simp [hsplit, hop']) hstart)
      rw [hsome]
      exact h

theorem blankTail_le (t : Text) : blankTail t ≤ t.length := by
  fun_induction blankTail t <;> simp_all <;> omega

theorem quotedTail_le (q : Char) (doubled : Bool) (t : Text) :
    quotedTail q doubled t ≤ t.length := by
  fun_induction quotedTail q doubled t <;> simp_all <;> omega

theorem escapedQuoteTail_le (q : Char) (t : Text) : escapedQuoteTail q t ≤ t.length := by
  fun_induction escapedQuoteTail q t <;> simp_all <;> omega

theorem lineCommentTail_le (t : Text) : lineCommentTail t ≤ t.length := by
  fun_induction lineCommentTail t <;> simp_all
  omega

theorem blockCommentTail_le (t : Text) : blockCommentTail t ≤ t.length := by
  fun_induction blockCommentTail t <;> simp_all
  omega

theorem bracedTail_le (depth : Nat) (t : Text) : bracedTail depth t ≤ t.length := by
  fun_induction bracedTail depth t <;> simp_all <;> omega

theorem delimitedTail_le (delimiter t : Text) : delimitedTail delimiter t ≤ t.length := by
  fun_induction delimitedTail delimiter t with
  | case1 => simp
  | case2 c r h => exact (List.isPrefixOf_iff_prefix.1 h).length_le
  | case3 c r h ih => simp only [List.length_cons]; omega

theorem dollarTail?_le {t : Text} {n : Nat} (h : dollarTail? t = some n) : n ≤ t.length := by
  obtain ⟨tag, body, -, rfl, rfl⟩ := dollarTail?_eq_some h
  have := delimitedTail_le ('$' :: tag ++ ['$']) body
  simp only [List.length_append, List.length_cons]
  omega

theorem namedPlaceholderTail?_le {t : Text} {n : Nat} (h : namedPlaceholderTail? t = some n) :
    n ≤ t.length := by
  obtain ⟨name, d, tail, -, -, -, rfl, rfl⟩ := namedPlaceholderTail?_eq_some h
  simp only [List.length_append, List.length_cons]
  omega

theorem operatorTail_le (c : Char) (t : Text) : operatorTail c t ≤ t.length := by
  unfold operatorTail
  split
  next op hop =>
    have hstart := List.find?_some hop
    have := (List.isPrefixOf_iff_prefix.1 hstart).length_le
    simp only [List.length_cons] at this
    omega
  · omega

theorem takeWhile_length_le (p : Char → Bool) (t : Text) : (t.takeWhile p).length ≤ t.length :=
  (List.takeWhile_prefix p).length_le

theorem lexeme_le (c : Char) (t : Text) : (lexeme c t).2 ≤ t.length := by
  have hidentifier : identifierTail t ≤ t.length := takeWhile_length_le _ t
  have hinitial := lexeme_initial c
  generalize lexeme c = F at hinitial
  cases hinitial with
  | blank => exact blankTail_le t
  | backslash =>
      cases t with
      | nil => exact Nat.le_refl _
      | cons d t =>
          have h₁ := blankTail_le t
          have h₂ := escapedQuoteTail_le d t
          grind [afterBackslash]
  | quote => exact quotedTail_le c true t
  | dash =>
      have h₁ := lineCommentTail_le (t.drop 1)
      have h₂ := operatorTail_le '-' t
      cases t with
      | nil => exact h₂
      | cons d t => grind [ifNext]
  | slash =>
      have h₁ := blockCommentTail_le (t.drop 1)
      have h₂ := operatorTail_le '/' t
      cases t with
      | nil => exact h₂
      | cons d t => grind [ifNext]
  | digit => exact Nat.sub_le ..
  | point =>
      have h : numberTail '.' t ≤ t.length := Nat.sub_le ..
      grind [ifNext]
  | dollar =>
      have h₁ : digitsTail t ≤ t.length := takeWhile_length_le _ t
      have h₂ := @dollarTail?_le t
      cases t with
      | nil => exact Nat.le_refl _
      | cons d t =>
          have h₃ := bracedTail_le 1 t
          grind [afterDollar]
  | brace => exact bracedTail_le 1 t
  | colon => cases t <;> grind [afterColon]
  | atSign => grind [ifNext, operatorTail_le]
  | percent =>
      have h₁ := @namedPlaceholderTail?_le t
      cases t <;> grind [afterPercent]
  | operator => exact operatorTail_le c t
  | letter => exact hidentifier
  | question => exact Nat.zero_le _
  | punctuation => exact Nat.zero_le _
  | other => exact Nat.zero_le _

section Neutral

variable {k : TokenKind} {r rest rest' : Text} (hrest : rest ≠ [])
  (hneutral : ∀ d ∈ rest'.head?, isNeutral d = true)

include hrest

theorem afterBackslash_local (hk : k ≠ .blank) (hr : r ≠ [])
    (h : afterBackslash (r ++ rest) = (k, r.length)) :
    afterBackslash (r ++ rest') = (k, r.length) := by
  obtain ⟨d, r, rfl⟩ := List.exists_cons_of_ne_nil hr
  simp only [List.cons_append, afterBackslash] at h ⊢
  split at h
  · exact absurd (congrArg Prod.fst h).symm hk
  next hblank =>
    rw [if_neg hblank]
    split at h
    next hquote =>
      rw [if_pos hquote]
      obtain ⟨rfl, hlength⟩ := Prod.mk.inj h
      have hclosed := escapedQuoteTail_local hrest (q := d) (r := r)
        (by simp only [List.length_cons] at hlength; omega) rest'
      simp only [hclosed, List.length_cons, Nat.add_comm]
    next hquote =>
      rw [if_neg hquote]
      split at h
      · simp at h
      next hspace => rw [if_neg hspace]; exact h

include hneutral

theorem afterDollar_local (h : afterDollar (r ++ rest) = (k, r.length)) :
    afterDollar (r ++ rest') = (k, r.length) := by
  cases r with
  | nil =>
      obtain ⟨x, rest, rfl⟩ := List.exists_cons_of_ne_nil hrest
      have hk : k = .punctuation := by
        simp only [List.nil_append, afterDollar, List.length_nil] at h
        split at h
        next hdigit => simp [digitsTail, hdigit] at h
        · split at h
          · simp at h
          · split at h
            next n hsome =>
              obtain ⟨tag, body, -, -, hn⟩ := dollarTail?_eq_some hsome
              have := (Prod.mk.inj h).2
              omega
            · exact (congrArg Prod.fst h).symm
      have hnone := dollarTail?_neutral hneutral
      cases rest' with
      | nil => rw [hk]; rfl
      | cons d rest' =>
          have hd := isNeutral_excludes (hneutral d (by simp))
          have hmark := hd.mark
          have hbrace : d ≠ openBrace := by
            rintro rfl
            simp at hmark
          simp [afterDollar, hd.digit, hbrace, hnone, hk]
  | cons d r =>
      simp only [List.cons_append, afterDollar] at h ⊢
      split at h
      next hdigit =>
        obtain ⟨rfl, hlength⟩ := Prod.mk.inj h
        rw [if_pos hdigit, ← List.cons_append, digitsTail_local hlength fun x hx =>
          (isNeutral_excludes (hneutral x hx)).digit]
      next hdigit =>
        rw [if_neg hdigit]
        split at h
        next hbrace =>
          obtain ⟨rfl, hlength⟩ := Prod.mk.inj h
          have hinside : bracedTail 1 (r ++ rest) = r.length := by
            simp only [List.length_cons] at hlength
            omega
          have hclosed := bracedTail_local hrest hinside rest'
          rw [if_pos hbrace, hclosed, List.length_cons, Nat.add_comm]
        next hbrace =>
          rw [if_neg hbrace]
          split at h
          next n hsome =>
            obtain ⟨rfl, rfl⟩ := Prod.mk.inj h
            rw [← List.cons_append, dollarTail?_local hrest hsome rest']
          · simp at h

theorem afterColon_local (hcolon : r = [] → rest'.head? ≠ some ':')
    (h : afterColon (r ++ rest) = (k, r.length)) : afterColon (r ++ rest') = (k, r.length) := by
  cases r with
  | nil =>
      obtain ⟨x, rest, rfl⟩ := List.exists_cons_of_ne_nil hrest
      have hk : k = .punctuation := by
        simp only [List.nil_append, afterColon, List.length_nil] at h
        split at h
        · simp at h
        · split at h
          next hletter =>
            exact absurd (congrArg Prod.snd h) (identifierTail_ne_zero hletter rest)
          · exact (congrArg Prod.fst h).symm
      cases rest' with
      | nil => rw [hk]; rfl
      | cons d rest' =>
          have hletter := (isNeutral_excludes (hneutral d (by simp))).initial
          have hd : d ≠ ':' := by simpa using hcolon rfl
          simp [afterColon, hd, hletter, hk]
  | cons d r =>
      simp only [List.cons_append, afterColon] at h ⊢
      split at h
      next hd => rw [if_pos hd]; exact h
      next hd =>
        rw [if_neg hd]
        split at h
        next hletter =>
          obtain ⟨rfl, hlength⟩ := Prod.mk.inj h
          rw [if_pos hletter, ← List.cons_append, identifierTail_local hlength fun x hx =>
            (isNeutral_excludes (hneutral x hx)).name]
        · simp at h

theorem afterPercent_local (h : afterPercent (r ++ rest) = (k, r.length)) :
    afterPercent (r ++ rest') = (k, r.length) := by
  cases r with
  | nil =>
      obtain ⟨x, rest, rfl⟩ := List.exists_cons_of_ne_nil hrest
      have hk : k = .operator := by
        simp only [List.nil_append, afterPercent, List.length_nil] at h
        split at h
        · simp at h
        · split at h
          next n hsome =>
            obtain ⟨name, d, tail, -, -, -, -, hn⟩ := namedPlaceholderTail?_eq_some hsome
            have := (Prod.mk.inj h).2
            omega
          · exact (congrArg Prod.fst h).symm
      cases rest' with
      | nil => rw [hk]; rfl
      | cons d rest' =>
          have hquote := (isNeutral_excludes (hneutral d (by simp))).mark
          simp only [List.mem_cons, not_or] at hquote
          have hnone : namedPlaceholderTail? (d :: rest') = none := by
            unfold namedPlaceholderTail?
            split
            next heq => exact absurd (List.cons.inj heq).1 (by simp [hquote])
            · rfl
          simp [afterPercent, hquote, hnone, hk]
  | cons d r =>
      simp only [List.cons_append, afterPercent] at h ⊢
      split at h
      next hd => rw [if_pos hd]; exact h
      next hd =>
        rw [if_neg hd]
        split at h
        next n hsome =>
          obtain ⟨rfl, rfl⟩ := Prod.mk.inj h
          rw [← List.cons_append, namedPlaceholderTail?_local hsome rest']
        · simp at h

end Neutral

def Reads (k : TokenKind) (t rest : Text) : Prop :=
  ∃ c r, t = c :: r ∧ lexeme c (r ++ rest) = (k, r.length)

theorem reads_cons {k : TokenKind} {c : Char} {r rest : Text} :
    Reads k (c :: r) rest ↔ lexeme c (r ++ rest) = (k, r.length) := by
  constructor
  · rintro ⟨c', r', heq, h⟩
    obtain ⟨rfl, rfl⟩ := List.cons.inj heq
    exact h
  · exact fun h => ⟨c, r, rfl, h⟩

namespace Reads

variable {k : TokenKind} {t rest rest' : Text}

theorem ifNext {q : Char → Bool} {r : Text} {F G : Text → TokenKind × Nat}
    (hstop : ∀ d ∈ rest'.head?, q d = false)
    (hpos : ∀ d u, q d = true → (F (d :: u)).2 ≠ 0)
    (hF : ∀ d r', r = d :: r' → q d = true → F (r ++ rest) = (k, r.length) →
      F (r ++ rest') = (k, r.length))
    (hG : G (r ++ rest) = (k, r.length) → G (r ++ rest') = (k, r.length))
    (h : Lexer.ifNext q F G (r ++ rest) = (k, r.length)) :
    Lexer.ifNext q F G (r ++ rest') = (k, r.length) := by
  unfold Lexer.ifNext at h ⊢
  cases r with
  | nil =>
      have hno : rest'.head?.any q = false := by
        cases hd : rest'.head? with
        | none => rfl
        | some d => exact hstop d hd
      simp only [List.nil_append, hno] at h hG ⊢
      cases rest with
      | nil => exact hG h
      | cons d u =>
          by_cases hd : q d = true
          · rw [List.head?_cons, Option.any_some, if_pos hd] at h
            exact absurd (congrArg Prod.snd h) (hpos d u hd)
          · rw [List.head?_cons, Option.any_some, if_neg hd] at h
            exact hG h
  | cons d r =>
      rw [List.cons_append, List.head?_cons, Option.any_some] at h ⊢
      by_cases hd : q d = true
      · rw [if_pos hd] at h ⊢
        exact hF d r rfl hd h
      · rw [if_neg hd] at h ⊢
        exact hG h

theorem neutral (h : Reads k t rest) (hrest : rest ≠ []) (hk : k ≠ .blank)
    (hcomment : k = .comment → t.startsWith ['-', '-'] = false) (hbare : t ≠ [backslash])
    (hcolon : t = [':'] → rest'.head? ≠ some ':')
    (hneutral : ∀ d ∈ rest'.head?, isNeutral d = true) : Reads k t rest' := by
  obtain ⟨c, r, rfl, h⟩ := h
  refine ⟨c, r, rfl, ?_⟩
  have hnumber : ∀ d ∈ rest'.head?, endsNumber d = true := fun d hd =>
    (isNeutral_excludes (hneutral d hd)).number
  have hword : ∀ d ∈ rest'.head?, isIdentifierChar d = false := fun d hd =>
    (isNeutral_excludes (hneutral d hd)).name
  have hsymbol : ∀ d ∈ rest'.head?, isOperatorChar d = false := fun d hd =>
    (isNeutral_excludes (hneutral d hd)).operator
  have hoperator (hc : c ≠ ':') (h : (TokenKind.operator, operatorTail c (r ++ rest)) =
      (k, r.length)) : (TokenKind.operator, operatorTail c (r ++ rest')) = (k, r.length) := by
    obtain ⟨rfl, hlength⟩ := Prod.mk.inj h
    rw [operatorTail_local hc hlength hsymbol]
  have hinitial := lexeme_initial c
  generalize lexeme c = F at h hinitial ⊢
  cases hinitial with
  | blank => exact absurd (congrArg Prod.fst h).symm hk
  | backslash => exact afterBackslash_local hrest hk (fun hr => hbare (by rw [hr])) h
  | quote hquote =>
      obtain ⟨rfl, hlength⟩ := Prod.mk.inj h
      have hhead : rest'.head? ≠ some c := fun hc => by
        have hquotes := (isNeutral_excludes (hneutral c hc)).mark
        rcases hquote with rfl | rfl | rfl <;> simp at hquotes
      exact Prod.ext rfl (quotedTail_local hrest hlength hhead)
  | dash =>
      refine ifNext (fun d hd => ?_) (fun d u _ => by simp) ?_ (hoperator (by decide)) h
      · exact beq_eq_false_iff_ne.2 fun heq => absurd (hsymbol d hd) (by rw [heq]; decide)
      · rintro d r' rfl hd heq
        obtain rfl : d = '-' := by simpa using hd
        have := hcomment (congrArg Prod.fst heq).symm
        simp [startsWith] at this
  | slash =>
      refine ifNext (fun d hd => ?_) (fun d u _ => by simp) ?_ (hoperator (by decide)) h
      · exact beq_eq_false_iff_ne.2 fun heq => absurd (hsymbol d hd) (by rw [heq]; decide)
      · rintro d r' rfl - heq
        simp only [List.cons_append, List.drop_succ_cons, List.drop_zero] at heq ⊢
        obtain ⟨rfl, hlength⟩ := Prod.mk.inj heq
        have hclosed := blockCommentTail_local hrest (r := r')
          (by simp only [List.length_cons] at hlength; omega) rest'
        rw [hclosed, List.length_cons, Nat.add_comm]
  | digit =>
      obtain ⟨rfl, hlength⟩ := Prod.mk.inj h
      exact Prod.ext rfl (numberTail_local hlength hnumber)
  | point =>
      refine ifNext (fun d hd => ?_) (fun d u hd => ?_) ?_ (fun heq => heq) h
      · exact (isNeutral_excludes (hneutral d hd)).digit
      · exact numberTail_point_ne_zero hd u
      · rintro d r' rfl - heq
        obtain ⟨rfl, hlength⟩ := Prod.mk.inj heq
        rw [numberTail_local hlength hnumber]
  | dollar => exact afterDollar_local hrest hneutral h
  | brace =>
      obtain ⟨rfl, hlength⟩ := Prod.mk.inj h
      exact Prod.ext rfl (bracedTail_local hrest hlength rest')
  | question => exact h
  | colon => exact afterColon_local hrest hneutral (fun hr => hcolon (by rw [hr])) h
  | atSign =>
      refine ifNext (fun d hd => ?_) (fun d u hd => ?_) ?_ (hoperator (by decide)) h
      · exact (isNeutral_excludes (hneutral d hd)).initial
      · exact identifierTail_ne_zero hd u
      · rintro d r' rfl - heq
        obtain ⟨rfl, hlength⟩ := Prod.mk.inj heq
        rw [identifierTail_local hlength hword]
  | percent => exact afterPercent_local hrest hneutral h
  | punctuation => exact h
  | operator hc =>
      exact hoperator (fun hcolon => absurd hc (by rw [hcolon]; decide)) h
  | letter =>
      obtain ⟨rfl, hlength⟩ := Prod.mk.inj h
      exact Prod.ext rfl (identifierTail_local hlength hword)
  | other => exact h

theorem lineComment (h : Reads .comment t rest) (ht : t.startsWith ['-', '-'] = true)
    (hrest' : rest' = [] ∨ rest'.head? = some '\n') : Reads .comment t rest' := by
  obtain ⟨c, r, rfl, h⟩ := h
  obtain ⟨u, hu⟩ := List.isPrefixOf_iff_prefix.1 ht
  obtain ⟨rfl, rfl⟩ : c = '-' ∧ r = '-' :: u := by simpa using hu.symm
  refine ⟨'-', '-' :: u, rfl, ?_⟩
  have hlexeme (x : Text) : lexeme '-' ('-' :: u ++ x) = (.comment, 1 + lineCommentTail (u ++ x)) :=
    rfl
  rw [hlexeme] at h ⊢
  have hlength : lineCommentTail (u ++ rest) = u.length := by
    have := (Prod.mk.inj h).2
    simp only [List.length_cons] at this
    omega
  rw [lineCommentTail_local hlength hrest', List.length_cons, Nat.add_comm]

theorem bareBackslash (hrest' : ∀ d ∈ rest'.head?, isBlank d = true) :
    Reads .punctuation [backslash] rest' := by
  refine ⟨backslash, [], rfl, ?_⟩
  have hlexeme : lexeme backslash = afterBackslash := rfl
  rw [List.nil_append, hlexeme]
  cases rest' with
  | nil => rfl
  | cons d u =>
      have hd := hrest' d (by simp)
      have hescape : isBlankEscape d = false := Bool.eq_false_iff.2 fun he => by
        simp only [isBlankEscape, Bool.or_eq_true, beq_iff_eq] at he
        rcases he with (rfl | rfl) | rfl <;> exact absurd hd (by decide)
      have hquote : (d == singleQuote || d == doubleQuote) = false :=
          Bool.eq_false_iff.2 fun he => by
        simp only [Bool.or_eq_true, beq_iff_eq] at he
        rcases he with rfl | rfl <;> exact absurd hd (by decide)
      simp only [afterBackslash, hescape, hquote, hd, Bool.false_eq_true, if_false, if_true,
        List.length_nil]

theorem quoted {c : Char} {r : Text} (hc : c = singleQuote ∨ c = doubleQuote ∨ c = backtick)
    (h : Reads k (c :: r) rest) (hrest : rest ≠ []) (hrest' : rest'.head? ≠ some c) :
    Reads k (c :: r) rest' := by
  have hlexeme : lexeme c = fun t => (.literal, quotedTail c true t) := by
    rcases hc with rfl | rfl | rfl <;> rfl
  rw [reads_cons, hlexeme] at h ⊢
  obtain ⟨rfl, hlength⟩ := Prod.mk.inj h
  exact Prod.ext rfl (quotedTail_local hrest hlength hrest')

theorem bracket {c : Char} (hc : c ∈ ['(', ')', ',', ';', '[', ']']) (rest' : Text) :
    Reads .punctuation [c] rest' := by
  refine ⟨c, [], rfl, ?_⟩
  simp only [List.mem_cons, List.not_mem_nil, or_false] at hc
  rcases hc with rfl | rfl | rfl | rfl | rfl | rfl <;> rfl

theorem cast (rest' : Text) : Reads .operator [':', ':'] rest' := ⟨':', [':'], rfl, rfl⟩

theorem point (hrest' : ∀ d ∈ rest'.head?, d.isDigit = false) : Reads .punctuation ['.'] rest' := by
  refine ⟨'.', [], rfl, ?_⟩
  rw [List.nil_append, lexeme_point]
  cases rest' with
  | nil => rfl
  | cons d u => simp [Lexer.ifNext, hrest' d (by simp)]

theorem operatorTail_eq_zero {c : Char} {u : Text}
    (hu : ∀ op ∈ longOperators, op.head? = some c → (op.drop 1).head? ≠ u.head?) :
    operatorTail c u = 0 := by
  have hnone : longOperators.find? (startsWith (c :: u)) = none := by
    refine List.find?_eq_none.2 fun op hop hstart => ?_
    have hlength := (longOperators_spelling hop).1
    match op, hlength with
    | a :: b :: op, _ =>
        obtain ⟨rfl, htail⟩ := List.cons_prefix_cons.1 (List.isPrefixOf_iff_prefix.1 hstart)
        obtain ⟨x, hx⟩ := htail
        exact hu _ hop rfl (by simp [← hx])
  rw [operatorTail, hnone]

theorem sign {c : Char} (hc : c = '-' ∨ c = '+' ∨ c = '~')
    (hdash : c = '-' → rest'.head? ≠ some '-' ∧ rest'.head? ≠ some '>')
    (htilde : c = '~' → rest'.head? ≠ some '*') : Reads .operator [c] rest' := by
  refine ⟨c, [], rfl, ?_⟩
  rcases hc with rfl | rfl | rfl
  · have hno : rest'.head?.any (· == '-') = false := by
      have := (hdash rfl).1
      cases hd : rest'.head? <;> simp_all
    have hops : ∀ op ∈ longOperators, op.head? = some '-' → (op.drop 1).head? = some '>' := by
      decide
    rw [lexeme_dash, List.nil_append, Lexer.ifNext, hno]
    simp only [Bool.false_eq_true, if_false, List.length_nil, Prod.mk.injEq, true_and]
    exact operatorTail_eq_zero fun op hop hhead => hops op hop hhead ▸ (hdash rfl).2.symm
  · have hops : ∀ op ∈ longOperators, op.head? ≠ some '+' := by decide
    exact Prod.ext rfl (operatorTail_eq_zero (u := rest') fun op hop hhead =>
      absurd hhead (hops op hop))
  · have hops : ∀ op ∈ longOperators, op.head? = some '~' → (op.drop 1).head? = some '*' := by
      decide
    exact Prod.ext rfl (operatorTail_eq_zero fun op hop hhead =>
      hops op hop hhead ▸ (htilde rfl).symm)

theorem kind_of_backslash (h : Reads k [backslash] rest) :
    k = .punctuation := by
  have h : afterBackslash rest = (k, 0) := reads_cons.1 h
  cases rest with
  | nil => exact (congrArg Prod.fst h).symm
  | cons d u => grind [afterBackslash]

theorem kind_of_colon (h : Reads k [':'] rest) : k = .punctuation := by
  have h : afterColon rest = (k, 0) := reads_cons.1 h
  cases rest with
  | nil => exact (congrArg Prod.fst h).symm
  | cons d u => grind [afterColon, identifierTail_ne_zero]

theorem word_initial {c : Char} {r : Text} (hk : k = .identifier ∨ k = .keyword)
    (h : Reads k (c :: r) rest) : k = .identifier ∧ (isLetter c = true ∨ c = '_') ∧
      lexeme c = fun t => (.identifier, identifierTail t) := by
  have h := reads_cons.1 h
  have hinitial := lexeme_initial c
  generalize lexeme c = F at h hinitial ⊢
  cases hinitial with
  | letter hc => exact ⟨(congrArg Prod.fst h).symm, hc, rfl⟩
  | backslash =>
      generalize r ++ rest = u at h
      cases u <;> grind [afterBackslash]
  | dollar =>
      generalize r ++ rest = u at h
      cases u <;> grind [afterDollar]
  | colon =>
      generalize r ++ rest = u at h
      cases u <;> grind [afterColon]
  | percent =>
      generalize r ++ rest = u at h
      cases u <;> grind [afterPercent]
  | dash | slash | point | atSign => grind [Lexer.ifNext]
  | _ => grind

theorem word {c : Char} {r : Text} (h : Reads .identifier (c :: r) rest)
    (hrest' : ∀ d ∈ rest'.head?, isIdentifierChar d = false) :
    Reads .identifier (c :: r) rest' := by
  obtain ⟨-, -, hlexeme⟩ := word_initial (.inl rfl) h
  rw [reads_cons, hlexeme] at h ⊢
  exact Prod.ext rfl (identifierTail_local (congrArg Prod.snd h) hrest')

theorem forall_isIdentifierChar (h : Reads .identifier t rest) :
    ∀ c ∈ t, isIdentifierChar c = true := by
  obtain ⟨c, r, rfl, -⟩ := id h
  obtain ⟨-, hc, hlexeme⟩ := word_initial (.inl rfl) h
  rw [reads_cons, hlexeme] at h
  have hlength : ((r ++ rest).takeWhile isIdentifierChar).length = r.length := congrArg Prod.snd h
  have htail : r = (r ++ rest).takeWhile isIdentifierChar := by
    have hfront := List.prefix_iff_eq_take.1
      (List.takeWhile_prefix isIdentifierChar (l := r ++ rest))
    rw [hfront, hlength, List.take_left]
  rw [List.forall_mem_cons]
  constructor
  · rcases hc with hc | rfl
    · simp [isIdentifierChar, isAlphanumeric, hc]
    · decide
  · rw [htail]
    exact List.all_eq_true.1 List.all_takeWhile

theorem of_word {c : Char} {r : Text} (hc : isLetter c = true ∨ c = '_')
    (hr : ∀ d ∈ r, isIdentifierChar d = true)
    (hrest : ∀ d ∈ rest.head?, isIdentifierChar d = false) : Reads .identifier (c :: r) rest := by
  have hlength : identifierTail (r ++ rest) = r.length := by
    rw [identifierTail, takeWhile_run hr hrest]
  rw [reads_cons, lexeme_word hc]
  exact Prod.ext rfl hlength

theorem greater {r : Text} (h : Reads k ('>' :: r) rest) : r = [] ∨ r = ['='] := by
  have hlength : operatorTail '>' (r ++ rest) = r.length := congrArg Prod.snd (reads_cons.1 h)
  by_cases hnext : (r ++ rest).head? = some '='
  · obtain ⟨u, hu⟩ := List.head?_eq_some_iff.1 hnext
    have hone : operatorTail '>' ('=' :: u) = 1 := rfl
    rw [hu, hone] at hlength
    obtain ⟨d, rfl⟩ := List.length_eq_one_iff.1 hlength.symm
    obtain ⟨rfl, -⟩ := List.cons.inj hu
    exact .inr rfl
  · have hops : ∀ op ∈ longOperators, op.head? = some '>' → (op.drop 1).head? = some '=' := by
      decide
    have hzero := operatorTail_eq_zero (c := '>') (u := r ++ rest) fun op hop hhead =>
      hops op hop hhead ▸ Ne.symm hnext
    rw [hzero] at hlength
    exact .inl (List.length_eq_zero_iff.1 hlength.symm)

theorem star {r : Text} (h : Reads k ('*' :: r) rest) : r = [] := by
  have hlength : operatorTail '*' (r ++ rest) = r.length := congrArg Prod.snd (reads_cons.1 h)
  have hops : ∀ op ∈ longOperators, op.head? ≠ some '*' := by decide
  have hzero := operatorTail_eq_zero (c := '*') (u := r ++ rest) fun op hop hhead =>
    absurd hhead (hops op hop)
  rw [hzero] at hlength
  exact List.length_eq_zero_iff.1 hlength.symm

end Reads

end EmbeddedSql.Lexer
