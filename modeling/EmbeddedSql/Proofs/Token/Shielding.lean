import EmbeddedSql.Proofs.Token.Reading

namespace EmbeddedSql.Lexer

open Text

theorem lexeme_blank {c : Char} {t : Text} {n : Nat} (h : lexeme c t = (.blank, n)) :
    (isAsciiBlank c = true ∧ n = blankTail t) ∨
      ∃ d r, c = backslash ∧ t = d :: r ∧ isBlankEscape d = true ∧ n = 1 + blankTail r := by
  have hdollar : (afterDollar t).1 ≠ .blank := by
    fun_cases afterDollar t <;> simp [*]
  have hcolon : (afterColon t).1 ≠ .blank := by
    fun_cases afterColon t <;> simp [*]
  have hpercent : (afterPercent t).1 ≠ .blank := by
    fun_cases afterPercent t <;> simp [*]
  have hinitial := lexeme_initial c
  generalize lexeme c = F at h hinitial
  cases hinitial with
  | blank hc => exact .inl ⟨hc, (congrArg Prod.snd h).symm⟩
  | backslash =>
      cases t with
      | nil => cases h
      | cons d r =>
          rw [afterBackslash] at h
          split at h
          next hd => exact .inr ⟨d, r, rfl, rfl, hd, (congrArg Prod.snd h).symm⟩
          · split at h
            · cases h
            · split at h <;> cases h
  | dollar => exact absurd (congrArg Prod.fst h) hdollar
  | colon => exact absurd (congrArg Prod.fst h) hcolon
  | percent => exact absurd (congrArg Prod.fst h) hpercent
  | dash | slash | point | atSign =>
      unfold Lexer.ifNext at h
      split at h <;> cases h
  | quote | digit | brace | question | punctuation | operator | letter | other => cases h

theorem getLast?_cons_some {c q : Char} {r : Text} (h : r.getLast? = some q) :
    (c :: r).getLast? = some q := by
  rw [List.getLast?_cons, h]
  rfl

section Closed

variable {r rest : Text} (hrest : rest ≠ [])

include hrest

theorem getLast?_of_quotedTail {q : Char} {doubled : Bool}
    (h : quotedTail q doubled (r ++ rest) = r.length) : r.getLast? = some q := by
  obtain ⟨x, rest, rfl⟩ := List.exists_cons_of_ne_nil hrest
  fun_induction quotedTail q doubled r with
  | case1 =>
      have := quotedTail_pos q doubled (List.cons_ne_nil x rest)
      simp only [List.nil_append, List.length_nil] at h
      omega
  | case2 c =>
      have := quotedTail_pos q doubled (List.cons_ne_nil x rest)
      simp only [List.cons_append, List.nil_append, quotedTail, List.length_singleton] at h
      grind
  | case3 c d r hc ih =>
      simp only [List.cons_append, quotedTail, hc, if_true, List.length_cons] at h
      exact getLast?_cons_some (getLast?_cons_some (ih (by omega)))
  | case4 c d r hc hq' hd ih =>
      simp only [List.cons_append, quotedTail, hc, hq', hd, if_true, List.length_cons,
        Bool.false_eq_true, if_false] at h
      exact getLast?_cons_some (getLast?_cons_some (ih (by omega)))
  | case5 c d r hc hq' hd =>
      simp only [List.cons_append, quotedTail, hc, hq', hd, if_true, List.length_cons,
        Bool.false_eq_true, if_false] at h
      omega
  | case6 c d r hc hq' ih =>
      simp only [List.cons_append, quotedTail, hc, hq', List.length_cons, Bool.false_eq_true,
        if_false] at h ih
      exact getLast?_cons_some (ih (by omega))

theorem getLast?_of_escapedQuoteTail {q : Char} (h : escapedQuoteTail q (r ++ rest) = r.length) :
    r.getLast? = some q := by
  obtain ⟨x, rest, rfl⟩ := List.exists_cons_of_ne_nil hrest
  fun_induction escapedQuoteTail q r with
  | case1 =>
      have := escapedQuoteTail_pos q (List.cons_ne_nil x rest)
      simp only [List.nil_append, List.length_nil] at h
      omega
  | case2 c =>
      have := escapedQuoteTail_pos q (List.cons_ne_nil x rest)
      simp only [List.cons_append, List.nil_append, escapedQuoteTail, List.length_singleton] at h
      grind
  | case3 c d r hc hd =>
      simp only [List.cons_append, escapedQuoteTail, hc, hd, if_true, List.length_cons] at h
      obtain rfl : r = [] := List.length_eq_zero_iff.1 (by omega)
      simpa using hd
  | case4 c d r hc hd ih =>
      simp only [List.cons_append, escapedQuoteTail, hc, hd, if_true, List.length_cons,
        Bool.false_eq_true, if_false] at h
      exact getLast?_cons_some (getLast?_cons_some (ih (by omega)))
  | case5 c d r hc ih =>
      simp only [List.cons_append, escapedQuoteTail, hc, List.length_cons, Bool.false_eq_true,
        if_false] at h ih
      exact getLast?_cons_some (ih (by omega))

theorem getLast?_of_blockCommentTail (h : blockCommentTail (r ++ rest) = r.length) :
    r.getLast? = some '/' := by
  obtain ⟨x, rest, rfl⟩ := List.exists_cons_of_ne_nil hrest
  fun_induction blockCommentTail r with
  | case1 =>
      have := blockCommentTail_pos (List.cons_ne_nil x rest)
      simp only [List.nil_append, List.length_nil] at h
      omega
  | case2 c =>
      have := blockCommentTail_pos (List.cons_ne_nil x rest)
      simp only [List.cons_append, List.nil_append, blockCommentTail, List.length_singleton] at h
      grind
  | case3 c d r hc =>
      simp only [List.cons_append, blockCommentTail, hc, if_true, List.length_cons] at h
      obtain rfl : r = [] := List.length_eq_zero_iff.1 (by omega)
      simp only [Bool.and_eq_true, beq_iff_eq] at hc
      simp [hc.2]
  | case4 c d r hc ih =>
      simp only [List.cons_append, blockCommentTail, hc, List.length_cons, Bool.false_eq_true,
        if_false] at h ih
      exact getLast?_cons_some (ih (by omega))

theorem getLast?_of_bracedTail {depth : Nat} (h : bracedTail depth (r ++ rest) = r.length) :
    r.getLast? = some closeBrace := by
  fun_induction bracedTail depth r with
  | case1 depth =>
      have := bracedTail_pos depth hrest
      simp only [List.nil_append, List.length_nil] at h
      omega
  | case2 depth c r hc ih =>
      simp only [List.cons_append, bracedTail, hc, if_true, List.length_cons] at h
      exact getLast?_cons_some (ih (by omega))
  | case3 depth c r hc hd hle =>
      simp only [List.cons_append, bracedTail, hc, hd, hle, if_true, List.length_cons,
        Bool.false_eq_true, if_false] at h
      obtain rfl : r = [] := List.length_eq_zero_iff.1 (by omega)
      simpa using hd
  | case4 depth c r hc hd hle ih =>
      simp only [List.cons_append, bracedTail, hc, hd, hle, if_true, List.length_cons,
        Bool.false_eq_true, if_false] at h
      exact getLast?_cons_some (ih (by omega))
  | case5 depth c r hc hd ih =>
      simp only [List.cons_append, bracedTail, hc, hd, List.length_cons, Bool.false_eq_true,
        if_false] at h
      exact getLast?_cons_some (ih (by omega))

theorem suffix_of_delimitedTail {delimiter : Text}
    (h : delimitedTail delimiter (r ++ rest) = r.length) : delimiter <:+ r := by
  induction r with
  | nil =>
      have := delimitedTail_length hrest h
      simp_all
  | cons c r ih =>
      have hle := delimitedTail_length hrest h
      simp only [List.cons_append, delimitedTail, List.length_cons] at h
      split at h
      next hs =>
        have hp := List.prefix_of_prefix_length_le (List.isPrefixOf_iff_prefix.1 hs)
          (List.prefix_append (c :: r) rest) hle
        exact hp.eq_of_length (by rw [h]; rfl) ▸ List.suffix_rfl
      next hs => exact (ih (by omega)).trans (List.suffix_cons c r)

end Closed

theorem forall_mem_of_takeWhile {p : Char → Bool} {r rest : Text}
    (h : ((r ++ rest).takeWhile p).length = r.length) : ∀ c ∈ r, p c = true := by
  have hall : (r ++ rest).takeWhile p = r :=
    (List.prefix_of_prefix_length_le (List.takeWhile_prefix p) (List.prefix_append r rest)
      (Nat.le_of_eq h)).eq_of_length h
  rw [← hall]
  exact List.all_eq_true.1 (List.all_takeWhile)

theorem numberTail_stops (c : Char) {d : Char} (hd : endsNumber d = true) (s x : Text) :
    numberTail c (s ++ d :: x) ≤ s.length := by
  have hstops {f : Text → Text} (hf : TakesFront f) (s : Text) :
      (d :: x).length ≤ (f (s ++ d :: x)).length := by
    rw [hf.stops s (d :: x) (by simpa using hd)]
    simp
  rw [numberTail_eq]
  split
  next hx =>
    have hhead : s ≠ [] := by
      rintro rfl
      simp only [List.nil_append, List.head?_cons, Bool.and_eq_true, Bool.or_eq_true,
        beq_iff_eq, Option.some.injEq] at hx
      rcases hx.2 with rfl | rfl <;> cases hd
    obtain ⟨e, s, rfl⟩ := List.exists_cons_of_ne_nil hhead
    have hle := hstops takesFront_hexRest s
    simp only [List.cons_append, List.drop_succ_cons, List.drop_zero, List.length_cons,
      List.length_append] at hle ⊢
    omega
  · have hle := hstops (takesFront_decimalRest c) s
    simp only [List.length_cons, List.length_append] at hle ⊢
    omega

theorem blankTail_of_lineCommentTail {r rest : Text} (hrest : rest ≠ [])
    (h : lineCommentTail (r ++ rest) = r.length) : blankTail rest ≠ 0 := by
  induction r with
  | nil =>
      obtain ⟨c, rest, rfl⟩ := List.exists_cons_of_ne_nil hrest
      simp only [List.nil_append, lineCommentTail, List.length_nil] at h
      split at h
      next hbreak =>
        obtain rfl : c = '\n' := by simpa using hbreak
        cases rest <;> simp [blankTail, isAsciiBlank]
      · split at h
        next hescape =>
          obtain ⟨rfl, hd⟩ : c = backslash ∧ (rest.head? = some 'n' ∨ rest.head? = some 'r') := by
            simpa using hescape
          rcases hd with hd | hd
          all_goals
            obtain ⟨rest, rfl⟩ := List.head?_eq_some_iff.1 hd
            rw [blankTail, if_neg (by decide), if_pos (by decide)]
            omega
        · omega
  | cons c r ih =>
      simp only [List.cons_append, lineCommentTail, List.length_cons] at h
      split at h
      · omega
      · split at h
        · omega
        · exact ih (by omega)

section Backslash

variable {r rest : Text} (hlast : r.getLast? = some backslash)

include hlast

theorem false_of_forall {p : Char → Bool} (hp : p backslash = false) (h : ∀ c ∈ r, p c = true) :
    False := by
  have hmem := h backslash (List.mem_of_getLast? hlast)
  rw [hp] at hmem
  cases hmem

theorem numberTail_backslash (c : Char) : numberTail c (r ++ rest) ≠ r.length := by
  obtain ⟨s, rfl⟩ := List.getLast?_eq_some_iff.1 hlast
  have hle := numberTail_stops c (by decide : endsNumber backslash = true) s rest
  rw [List.append_assoc, List.singleton_append, List.length_append, List.length_singleton]
  omega

theorem operatorTail_backslash (c : Char) : operatorTail c (r ++ rest) ≠ r.length := by
  intro h
  unfold operatorTail at h
  split at h
  next op hop =>
    have hspelling : ∀ op ∈ longOperators, 2 ≤ op.length ∧ backslash ∉ op := by decide
    obtain ⟨hlength, hslash⟩ := hspelling op (List.mem_of_find?_eq_some hop)
    have hstart := List.find?_some hop
    have hpre : op <+: (c :: r) ++ rest := List.isPrefixOf_iff_prefix.1 hstart
    have hle : op.length = (c :: r).length := by simp only [List.length_cons]; omega
    have hwhole : op = c :: r :=
      (List.prefix_of_prefix_length_le hpre (List.prefix_append _ _)
        (Nat.le_of_eq hle)).eq_of_length hle
    rw [hwhole] at hslash
    exact hslash (List.mem_cons_of_mem c (List.mem_of_getLast? hlast))
  next =>
    obtain rfl := List.length_eq_zero_iff.1 h.symm
    cases hlast

theorem identifierTail_backslash : identifierTail (r ++ rest) ≠ r.length := by
  intro h
  exact false_of_forall hlast (by decide) (forall_mem_of_takeWhile h)

theorem digitsTail_backslash : digitsTail (r ++ rest) ≠ r.length := by
  intro h
  exact false_of_forall hlast (by decide) (forall_mem_of_takeWhile h)

theorem afterColon_backslash : (afterColon (r ++ rest)).2 ≠ r.length := by
  obtain ⟨d, r', rfl⟩ := List.exists_cons_of_ne_nil (l := r) (by rintro rfl; cases hlast)
  rw [List.cons_append, afterColon]
  split
  next hcolon =>
    intro h
    obtain rfl : d = ':' := by simpa using hcolon
    obtain rfl : r' = [] := List.length_eq_zero_iff.1 (by simpa using h)
    cases hlast
  · split
    · exact identifierTail_backslash hlast
    · simp

theorem afterPercent_backslash : (afterPercent (r ++ rest)).2 ≠ r.length := by
  obtain ⟨d, r', rfl⟩ := List.exists_cons_of_ne_nil (l := r) (by rintro rfl; cases hlast)
  rw [List.cons_append, afterPercent]
  split
  next hletter =>
    intro h
    obtain rfl : r' = [] := List.length_eq_zero_iff.1 (by simpa using h)
    obtain rfl : d = backslash := by simpa using hlast
    cases hletter
  · split
    next n hn =>
      intro h
      obtain ⟨name, e, tail, -, -, he, ht, hlength⟩ := namedPlaceholderTail?_eq_some hn
      have hsplit : (d :: r') ++ rest = ('(' :: (name ++ [')', e])) ++ tail := by simp [ht]
      have hwhole := (List.append_inj hsplit (by simp [← h, hlength])).1
      obtain rfl : e = backslash := by simpa [hwhole, List.getLast?_cons] using hlast
      cases he
    · simp

theorem afterDollar_backslash (hrest : rest ≠ []) : (afterDollar (r ++ rest)).2 ≠ r.length := by
  obtain ⟨d, r', rfl⟩ := List.exists_cons_of_ne_nil (l := r) (by rintro rfl; cases hlast)
  rw [List.cons_append, afterDollar]
  split
  · exact digitsTail_backslash hlast
  · split
    next hbrace =>
      intro h
      have hlength : bracedTail 1 (r' ++ rest) = r'.length := by
        simp only [List.length_cons] at h
        omega
      have hclose := getLast?_cons_some (c := d) (getLast?_of_bracedTail hrest hlength)
      cases hlast.symm.trans hclose
    · split
      next n hn =>
        intro h
        obtain ⟨tag, body, -, ht, hlength⟩ := dollarTail?_eq_some hn
        have hsplit : (d :: r') ++ rest = (tag ++ ['$']) ++ body := by simp [ht]
        obtain ⟨inner, hinner, rfl⟩ := split_after hsplit (by simp [← h, hlength])
        have hlength' : delimitedTail ('$' :: tag ++ ['$']) (inner ++ rest) = inner.length := by
          have hsum := congrArg List.length hinner
          simp only [List.length_append, List.length_singleton, ← h] at hsum
          omega
        obtain ⟨front, rfl⟩ := suffix_of_delimitedTail hrest hlength'
        rw [hinner, ← List.append_assoc, ← List.append_assoc, List.getLast?_concat] at hlast
        cases hlast
      · simp

theorem afterBackslash_backslash (hrest : rest ≠ []) (hk : (afterBackslash (r ++ rest)).1 ≠ .blank)
    (h : (afterBackslash (r ++ rest)).2 = r.length) : r = [backslash] := by
  obtain ⟨d, r', rfl⟩ := List.exists_cons_of_ne_nil (l := r) (by rintro rfl; cases hlast)
  rw [List.cons_append, afterBackslash] at h hk
  split at h
  next hblank =>
    rw [if_pos hblank] at hk
    exact absurd rfl hk
  · split at h
    next hquote =>
      have hlength : escapedQuoteTail d (r' ++ rest) = r'.length := by
        simp only [List.length_cons] at h
        omega
      have hclose := getLast?_cons_some (c := d) (getLast?_of_escapedQuoteTail hrest hlength)
      obtain rfl := Option.some.inj (hlast.symm.trans hclose)
      cases hquote
    · split at h
      · simp at h
      · obtain rfl : r' = [] := List.length_eq_zero_iff.1 (by simpa using h.symm)
        simpa using hlast

theorem afterSlash_backslash (hrest : rest ≠ []) :
    (ifNext (· == '*') (fun t => (.comment, 1 + blockCommentTail (t.drop 1)))
      (fun t => (.operator, operatorTail '/' t)) (r ++ rest)).2 ≠ r.length := by
  obtain ⟨d, r', rfl⟩ := List.exists_cons_of_ne_nil (l := r) (by rintro rfl; cases hlast)
  unfold ifNext
  split
  · intro h
    simp only [List.cons_append, List.drop_succ_cons, List.drop_zero, List.length_cons] at h
    have hclose := getLast?_of_blockCommentTail hrest (r := r') (by omega)
    cases hlast.symm.trans (getLast?_cons_some hclose)
  · show operatorTail '/' (d :: r' ++ rest) ≠ (d :: r').length
    exact operatorTail_backslash hlast '/'

theorem afterDash_backslash (hrest : rest ≠ []) {k : TokenKind}
    (h : ifNext (· == '-') (fun t => (.comment, 1 + lineCommentTail (t.drop 1)))
      (fun t => (.operator, operatorTail '-' t)) (r ++ rest) = (k, r.length)) :
    (k = .comment ∧ startsWith ('-' :: r) ['-', '-'] = true) ∧ blankTail rest ≠ 0 := by
  obtain ⟨d, r', rfl⟩ := List.exists_cons_of_ne_nil (l := r) (by rintro rfl; cases hlast)
  unfold ifNext at h
  split at h
  next hdash =>
    obtain rfl : d = '-' := by simpa using hdash
    have hlength := congrArg Prod.snd h
    simp only [List.cons_append, List.drop_succ_cons, List.drop_zero, List.length_cons] at hlength
    exact ⟨⟨(congrArg Prod.fst h).symm, rfl⟩,
      blankTail_of_lineCommentTail hrest (r := r') (by omega)⟩
  · exact absurd (congrArg Prod.snd h) (operatorTail_backslash hlast '-')

end Backslash

theorem isBlank_of_afterBackslash {k : TokenKind} {rest : Text} (hrest : rest ≠ [])
    (h : afterBackslash rest = (k, 0)) : ∀ d ∈ rest.head?, isBlank d = true := by
  obtain ⟨d, rest, rfl⟩ := List.exists_cons_of_ne_nil hrest
  rw [afterBackslash] at h
  split at h
  · simp at h
  · split at h
    · simp at h
    · split at h
      next hblank => simpa using hblank
      · simp at h

theorem Reads.of_backslash {k : TokenKind} {t rest : Text} (h : Reads k t rest) (hk : k ≠ .blank)
    (hrest : rest ≠ []) (hlast : t.getLast? = some backslash) :
    (t = [backslash] ∧ ∀ d ∈ rest.head?, isBlank d = true) ∨ t = [backslash, backslash] ∨
      (k = .comment ∧ startsWith t ['-', '-'] = true) ∧ blankTail rest ≠ 0 := by
  obtain ⟨c, r, rfl, h⟩ := h
  by_cases hr : r = []
  · subst hr
    obtain rfl : c = backslash := by simpa using hlast
    exact .inl ⟨rfl, isBlank_of_afterBackslash hrest h⟩
  · replace hlast : r.getLast? = some backslash := by
      obtain ⟨s, d, rfl⟩ := (List.eq_nil_or_concat r).resolve_left hr
      simpa [List.getLast?_cons] using hlast
    have hinitial := lexeme_initial c
    generalize lexeme c = F at h hinitial
    cases hinitial with
    | blank => exact absurd (congrArg Prod.fst h).symm hk
    | backslash =>
        have hone := afterBackslash_backslash hlast hrest (by rwa [h]) (congrArg Prod.snd h)
        exact .inr (.inl (by rw [hone]))
    | quote hquote =>
        have hclose := getLast?_of_quotedTail hrest (congrArg Prod.snd h)
        obtain rfl := Option.some.inj (hlast.symm.trans hclose)
        rcases hquote with hquote | hquote | hquote <;> cases hquote
    | dash => exact .inr (.inr (afterDash_backslash hlast hrest h))
    | slash => exact absurd (congrArg Prod.snd h) (afterSlash_backslash hlast hrest)
    | digit => exact absurd (congrArg Prod.snd h) (numberTail_backslash hlast _)
    | point =>
        unfold Lexer.ifNext at h
        split at h
        · exact absurd (congrArg Prod.snd h) (numberTail_backslash hlast _)
        · exact absurd (List.length_eq_zero_iff.1 (congrArg Prod.snd h).symm) hr
    | dollar => exact absurd (congrArg Prod.snd h) (afterDollar_backslash hlast hrest)
    | brace =>
        have hclose := getLast?_of_bracedTail hrest (congrArg Prod.snd h)
        cases hlast.symm.trans hclose
    | question => exact absurd (List.length_eq_zero_iff.1 (congrArg Prod.snd h).symm) hr
    | colon => exact absurd (congrArg Prod.snd h) (afterColon_backslash hlast)
    | atSign =>
        unfold Lexer.ifNext at h
        split at h
        · exact absurd (congrArg Prod.snd h) (identifierTail_backslash hlast)
        · exact absurd (congrArg Prod.snd h) (operatorTail_backslash hlast _)
    | percent => exact absurd (congrArg Prod.snd h) (afterPercent_backslash hlast)
    | punctuation => exact absurd (List.length_eq_zero_iff.1 (congrArg Prod.snd h).symm) hr
    | operator => exact absurd (congrArg Prod.snd h) (operatorTail_backslash hlast _)
    | letter => exact absurd (congrArg Prod.snd h) (identifierTail_backslash hlast)
    | other => exact absurd (List.length_eq_zero_iff.1 (congrArg Prod.snd h).symm) hr

end EmbeddedSql.Lexer
