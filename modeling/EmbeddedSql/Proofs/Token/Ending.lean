import EmbeddedSql.Proofs.Token.Stream

namespace EmbeddedSql.Lexer

open Text

section Reaches

variable {r : Text}

theorem quotedTail_reaches {q : Char} {doubled : Bool} (h : quotedTail q doubled r = r.length)
    (x : Text) : r.length ≤ quotedTail q doubled (r ++ x) := by
  fun_induction quotedTail q doubled r with
  | case1 => simp
  | case2 c => exact quotedTail_pos q doubled (List.cons_ne_nil c x)
  | case3 c d r hc ih =>
      simp only [List.cons_append, quotedTail, hc, if_true, List.length_cons] at h ⊢
      have := ih (by omega)
      omega
  | case4 c d r hc hq hd ih =>
      simp only [List.cons_append, quotedTail, hc, hq, hd, if_true, List.length_cons,
        Bool.false_eq_true, if_false] at h ⊢
      have := ih (by omega)
      omega
  | case5 c d r hc hq hd => simp at h
  | case6 c d r hc hq ih =>
      simp only [List.cons_append, quotedTail, hc, hq, List.length_cons, Bool.false_eq_true,
        if_false] at h ih ⊢
      have := ih (by omega)
      omega

theorem escapedQuoteTail_reaches {q : Char} (h : escapedQuoteTail q r = r.length) (x : Text) :
    r.length ≤ escapedQuoteTail q (r ++ x) := by
  fun_induction escapedQuoteTail q r with
  | case1 => simp
  | case2 c => exact escapedQuoteTail_pos q (List.cons_ne_nil c x)
  | case3 c d r hc hd =>
      simp only [List.cons_append, escapedQuoteTail, hc, hd, if_true, List.length_cons] at h ⊢
      omega
  | case4 c d r hc hd ih =>
      simp only [List.cons_append, escapedQuoteTail, hc, hd, if_true, List.length_cons,
        Bool.false_eq_true, if_false] at h ⊢
      have := ih (by omega)
      omega
  | case5 c d r hc ih =>
      simp only [List.cons_append, escapedQuoteTail, hc, List.length_cons, Bool.false_eq_true,
        if_false] at h ih ⊢
      have := ih (by omega)
      omega

theorem blockCommentTail_reaches (h : blockCommentTail r = r.length) (x : Text) :
    r.length ≤ blockCommentTail (r ++ x) := by
  fun_induction blockCommentTail r with
  | case1 => simp
  | case2 c => exact blockCommentTail_pos (List.cons_ne_nil c x)
  | case3 c d r hc =>
      simp only [List.cons_append, blockCommentTail, hc, if_true, List.length_cons] at h ⊢
      omega
  | case4 c d r hc ih =>
      simp only [List.cons_append, blockCommentTail, hc, List.length_cons, Bool.false_eq_true,
        if_false] at h ih ⊢
      have := ih (by omega)
      omega

theorem bracedTail_reaches {depth : Nat} (h : bracedTail depth r = r.length) (x : Text) :
    r.length ≤ bracedTail depth (r ++ x) := by
  fun_induction bracedTail depth r with
  | case1 depth => simp
  | case2 depth c r hc ih =>
      simp only [List.cons_append, bracedTail, hc, if_true, List.length_cons] at h ⊢
      have := ih (by omega)
      omega
  | case3 depth c r hc hd hle =>
      simp only [List.cons_append, bracedTail, hc, hd, hle, if_true, List.length_cons,
        Bool.false_eq_true, if_false] at h ⊢
      omega
  | case4 depth c r hc hd hle ih =>
      simp only [List.cons_append, bracedTail, hc, hd, hle, if_true, List.length_cons,
        Bool.false_eq_true, if_false] at h ⊢
      have := ih (by omega)
      omega
  | case5 depth c r hc hd ih =>
      simp only [List.cons_append, bracedTail, hc, hd, List.length_cons, Bool.false_eq_true,
        if_false] at h ⊢
      have := ih (by omega)
      omega

theorem delimitedTail_reaches {delimiter : Text} (h : delimitedTail delimiter r = r.length)
    (x : Text) : r.length ≤ delimitedTail delimiter (r ++ x) := by
  induction r with
  | nil => simp
  | cons c r ih =>
      simp only [List.cons_append, delimitedTail, List.length_cons] at h ⊢
      split
      next hnew =>
        -- a delimiter that was not there before reaches into the text that was added
        refine Nat.le_of_not_lt fun hshort => ?_
        have hfront := List.isPrefixOf_iff_prefix.1 hnew
        have hold : startsWith (c :: r) delimiter = true :=
          List.isPrefixOf_iff_prefix.2 (List.prefix_of_prefix_length_le hfront
            (List.prefix_append (c :: r) x) (by simp only [List.length_cons]; omega))
        rw [if_pos hold] at h
        omega
      next hnew =>
        have hold : startsWith (c :: r) delimiter = false := by
          rw [Bool.eq_false_iff]
          intro hold
          exact hnew (List.isPrefixOf_iff_prefix.2
            ((List.isPrefixOf_iff_prefix.1 hold).trans (List.prefix_append (c :: r) x)))
        rw [hold, if_neg (by simp)] at h
        have := ih (by omega)
        omega

end Reaches

/-- Before a line break a scanner takes `r` alone or, in a literal or a comment, at least `r`. -/
def Reaches (k : TokenKind) (F : Text → TokenKind × Nat) (r : Text) : Prop :=
  ∃ n, F (r ++ ['\n']) = (k, n) ∧
    (n = r.length ∨ (r.length ≤ n ∧ (k = .literal ∨ k = .comment)))

section Lexeme

variable {k : TokenKind} {r : Text}

theorem newline_isNeutral : ∀ d ∈ (['\n'] : Text).head?, isNeutral d = true := by
  simp [isNeutral]

theorem identifierTail_newline (h : identifierTail r = r.length) :
    identifierTail (r ++ ['\n']) = r.length := by
  have hold : identifierTail (r ++ []) = r.length := by rwa [List.append_nil]
  exact identifierTail_local hold fun d hd => (isNeutral_excludes (newline_isNeutral d hd)).name

theorem Reaches.of_eq {F : Text → TokenKind × Nat} (h : F (r ++ ['\n']) = (k, r.length)) :
    Reaches k F r :=
  ⟨r.length, h, .inl rfl⟩

theorem afterBackslash_reaches (hk : k ≠ .blank) (h : afterBackslash r = (k, r.length)) :
    Reaches k afterBackslash r := by
  cases r with
  | nil => exact .of_eq (h ▸ rfl)
  | cons d r =>
      simp only [afterBackslash] at h
      split at h
      · exact absurd (congrArg Prod.fst h).symm hk
      next hblank =>
        split at h
        next hquote =>
          obtain ⟨rfl, hlength⟩ := Prod.mk.inj h
          have hreaches := escapedQuoteTail_reaches (q := d) (r := r)
            (by simp only [List.length_cons] at hlength; omega) ['\n']
          refine ⟨1 + escapedQuoteTail d (r ++ ['\n']), ?_, .inr ⟨?_, .inl rfl⟩⟩
          · simp only [List.cons_append, afterBackslash]
            rw [if_neg hblank, if_pos hquote]
          · simp only [List.length_cons]
            omega
        next hquote =>
          split at h
          · simp at h
          next hspace =>
            refine .of_eq ?_
            simp only [List.cons_append, afterBackslash]
            rw [if_neg hblank, if_neg hquote, if_neg hspace, h]

theorem dollarTail?_reaches (h : dollarTail? r = some r.length) :
    ∃ n, dollarTail? (r ++ ['\n']) = some n ∧ r.length ≤ n := by
  obtain ⟨tag, body, htag, rfl, hlength⟩ := dollarTail?_eq_some h
  have hbody : delimitedTail ('$' :: tag ++ ['$']) body = body.length := by
    simp only [List.length_append, List.length_cons] at hlength ⊢
    omega
  have hreaches := delimitedTail_reaches hbody ['\n']
  refine ⟨_, by rw [List.append_assoc, List.cons_append]; exact dollarTail?_tag htag _, ?_⟩
  simp only [List.length_append, List.length_cons] at hreaches ⊢
  omega

theorem afterDollar_reaches (h : afterDollar r = (k, r.length)) : Reaches k afterDollar r := by
  cases r with
  | nil => exact .of_eq (h ▸ rfl)
  | cons d r =>
      simp only [afterDollar] at h
      split at h
      next hdigit =>
        obtain ⟨rfl, hlength⟩ := Prod.mk.inj h
        have hold : digitsTail (d :: r ++ []) = (d :: r).length := by rwa [List.append_nil]
        have hdigits : digitsTail (d :: r ++ ['\n']) = (d :: r).length :=
          digitsTail_local hold (by simp [Char.isDigit])
        refine .of_eq ?_
        simp only [List.cons_append, afterDollar]
        rw [if_pos hdigit, ← hdigits]
        rfl
      next hdigit =>
        split at h
        next hbrace =>
          obtain ⟨rfl, hlength⟩ := Prod.mk.inj h
          have hold : bracedTail 1 r = r.length := by
            simp only [List.length_cons] at hlength
            omega
          have hreaches := bracedTail_reaches hold ['\n']
          refine ⟨1 + bracedTail 1 (r ++ ['\n']), ?_, .inr ⟨?_, .inl rfl⟩⟩
          · simp only [List.cons_append, afterDollar]
            rw [if_neg hdigit, if_pos hbrace]
          · simp only [List.length_cons]
            omega
        next hbrace =>
          split at h
          next n hsome =>
            obtain ⟨rfl, rfl⟩ := Prod.mk.inj h
            obtain ⟨n, hn, hle⟩ := dollarTail?_reaches hsome
            refine ⟨n, ?_, .inr ⟨hle, .inl rfl⟩⟩
            simp only [List.cons_append, afterDollar] at hn ⊢
            rw [if_neg hdigit, if_neg hbrace, hn]
          · simp at h

theorem afterColon_reaches (h : afterColon r = (k, r.length)) : Reaches k afterColon r := by
  refine .of_eq ?_
  cases r with
  | nil => exact h ▸ rfl
  | cons d r =>
      simp only [List.cons_append, afterColon] at h ⊢
      split at h
      next hd => rw [if_pos hd, h]
      next hd =>
        rw [if_neg hd]
        split at h
        next hletter =>
          obtain ⟨rfl, hlength⟩ := Prod.mk.inj h
          rw [if_pos hletter, ← List.cons_append, identifierTail_newline hlength]
        · simp at h

theorem afterPercent_reaches (h : afterPercent r = (k, r.length)) : Reaches k afterPercent r := by
  refine .of_eq ?_
  cases r with
  | nil => exact h ▸ rfl
  | cons d r =>
      simp only [List.cons_append, afterPercent] at h ⊢
      split at h
      next hd => rw [if_pos hd, h]
      next hd =>
        rw [if_neg hd]
        split at h
        next n hsome =>
          obtain ⟨rfl, rfl⟩ := Prod.mk.inj h
          have hold : namedPlaceholderTail? (d :: r ++ []) = some (d :: r).length := by
            rwa [List.append_nil]
          rw [← List.cons_append, namedPlaceholderTail?_local hold]
        · simp at h

theorem Reaches.ifNext {q : Char → Bool} {F G : Text → TokenKind × Nat} (hq : q '\n' = false)
    (hF : ∀ d r', r = d :: r' → q d = true → F r = (k, r.length) → Reaches k F r)
    (hG : G r = (k, r.length) → Reaches k G r) (h : Lexer.ifNext q F G r = (k, r.length)) :
    Reaches k (Lexer.ifNext q F G) r := by
  unfold Lexer.ifNext at h
  unfold Reaches Lexer.ifNext
  cases r with
  | nil =>
      simp only [List.head?_nil, Option.any_none, Bool.false_eq_true, if_false] at h
      simp only [List.nil_append, List.head?_cons, Option.any_some, hq, Bool.false_eq_true,
        if_false]
      exact hG h
  | cons d r =>
      rw [List.head?_cons, Option.any_some] at h
      rw [List.cons_append, List.head?_cons, Option.any_some]
      by_cases hd : q d = true
      · rw [if_pos hd] at h ⊢
        exact hF d r rfl hd h
      · rw [if_neg hd] at h ⊢
        exact hG h

theorem Reaches.of_operatorTail {c : Char} (hc : c ≠ ':')
    (h : (TokenKind.operator, operatorTail c r) = (k, r.length)) :
    Reaches k (fun t => (.operator, operatorTail c t)) r := by
  obtain ⟨rfl, hlength⟩ := Prod.mk.inj h
  have hold : operatorTail c (r ++ []) = r.length := by rwa [List.append_nil]
  refine .of_eq ?_
  rw [operatorTail_local hc hold (by simp [isOperatorChar])]

theorem Reaches.of_numberTail {c : Char} (h : (TokenKind.literal, numberTail c r) = (k, r.length)) :
    Reaches k (fun t => (.literal, numberTail c t)) r := by
  obtain ⟨rfl, hlength⟩ := Prod.mk.inj h
  have hold : numberTail c (r ++ []) = r.length := by rwa [List.append_nil]
  refine .of_eq ?_
  rw [numberTail_local hold fun d hd => (isNeutral_excludes (newline_isNeutral d hd)).number]

theorem Reaches.of_identifierTail {kind : TokenKind}
    (h : (kind, identifierTail r) = (k, r.length)) :
    Reaches k (fun t => (kind, identifierTail t)) r := by
  obtain ⟨rfl, hlength⟩ := Prod.mk.inj h
  refine .of_eq ?_
  rw [identifierTail_newline hlength]

theorem Reaches.of_lineCommentTail {d : Char}
    (h : (TokenKind.comment, 1 + lineCommentTail r) = (k, (d :: r).length)) :
    Reaches k (fun t => (.comment, 1 + lineCommentTail (t.drop 1))) (d :: r) := by
  obtain ⟨rfl, hlength⟩ := Prod.mk.inj h
  rw [List.length_cons] at hlength
  have hold : lineCommentTail (r ++ []) = r.length := by
    rw [List.append_nil]
    omega
  have hline : lineCommentTail (r ++ ['\n']) = r.length := lineCommentTail_local hold (.inr rfl)
  refine .of_eq ?_
  simp only [List.cons_append, List.drop_succ_cons, List.drop_zero, List.length_cons, hline,
    Nat.add_comm]

theorem Reaches.of_blockCommentTail {d : Char}
    (h : (TokenKind.comment, 1 + blockCommentTail r) = (k, (d :: r).length)) :
    Reaches k (fun t => (.comment, 1 + blockCommentTail (t.drop 1))) (d :: r) := by
  obtain ⟨rfl, hlength⟩ := Prod.mk.inj h
  rw [List.length_cons] at hlength
  have hblock := blockCommentTail_reaches (r := r) (by omega) ['\n']
  refine ⟨_, rfl, .inr ⟨?_, .inr rfl⟩⟩
  simp only [List.cons_append, List.drop_succ_cons, List.drop_zero, List.length_cons]
  omega

theorem lexeme_reaches {c : Char} (hk : k ≠ .blank) (h : lexeme c r = (k, r.length)) :
    Reaches k (lexeme c) r := by
  have hinitial := lexeme_initial c
  generalize lexeme c = F at h hinitial ⊢
  cases hinitial with
  | blank => exact absurd (congrArg Prod.fst h).symm hk
  | backslash => exact afterBackslash_reaches hk h
  | quote hquote =>
      obtain ⟨rfl, hlength⟩ := Prod.mk.inj h
      exact ⟨_, rfl, .inr ⟨quotedTail_reaches hlength _, .inl rfl⟩⟩
  | dash =>
      refine .ifNext (by decide) ?_ (.of_operatorTail (by decide)) h
      rintro d r rfl - heq
      exact .of_lineCommentTail heq
  | slash =>
      refine .ifNext (by decide) ?_ (.of_operatorTail (by decide)) h
      rintro d r rfl - heq
      exact .of_blockCommentTail heq
  | digit => exact .of_numberTail h
  | point => exact .ifNext (by decide) (fun _ _ _ _ => .of_numberTail) (fun heq => .of_eq heq) h
  | dollar => exact afterDollar_reaches h
  | brace =>
      obtain ⟨rfl, hlength⟩ := Prod.mk.inj h
      exact ⟨_, rfl, .inr ⟨bracedTail_reaches hlength _, .inl rfl⟩⟩
  | question => exact .of_eq h
  | colon => exact afterColon_reaches h
  | atSign =>
      exact .ifNext (by decide) (fun _ _ _ _ => .of_identifierTail)
        (.of_operatorTail (by decide)) h
  | percent => exact afterPercent_reaches h
  | punctuation => exact .of_eq h
  | operator hc => exact .of_operatorTail (fun hcolon => absurd hc (by rw [hcolon]; decide)) h
  | letter => exact .of_identifierTail h
  | other => exact .of_eq h

end Lexeme

structure Open (v : Vocabulary) (t : Token) : Prop where
  kind : t.kind = .literal ∨ t.kind = .comment
  atEnd : ReadsToken v t []
  extended : ReadsToken v { t with text := t.text ++ ['\n'] } []

theorem ReadsToken.closed_or_open {v : Vocabulary} {t : Token} (h : ReadsToken v t []) :
    Closed v t ∨ Open v t := by
  rcases h.word_or_other with ⟨hword, htoken⟩ | ⟨hreads, hidentifier, -, hblank⟩
  · obtain ⟨c, r, htext, -⟩ := id hword
    refine .inl ⟨['\n'], by simp, .identifier, by simp, ?_, htoken⟩
    rw [htext] at hword ⊢
    exact hword.word fun d hd => (isNeutral_excludes (newline_isNeutral d hd)).name
  · obtain ⟨c, r, htext, hlexeme⟩ := id hreads
    rw [List.append_nil] at hlexeme
    obtain ⟨n, hn, hends⟩ := lexeme_reaches hblank hlexeme
    have hle : n ≤ r.length + 1 := by
      have := lexeme_le c (r ++ ['\n'])
      rw [hn] at this
      simpa using this
    by_cases hend : n = r.length
    · refine .inl ⟨['\n'], by simp, .of_reads hidentifier hblank ?_⟩
      rw [htext, reads_cons, hn, hend]
    · obtain ⟨hge, hkind⟩ := hends.resolve_left hend
      refine .inr ⟨hkind, h, .of_reads hidentifier hblank ?_⟩
      rw [htext, List.cons_append, reads_cons, List.append_nil, hn, List.length_append]
      congr 1
      simp only [List.length_singleton]
      omega

theorem mem_dropLast_of_front {α : Type} {xs ys : List α} {x : α} (h : xs <+: ys)
    (hx : x ∈ xs.dropLast) : x ∈ ys.dropLast := by
  obtain ⟨zs, rfl⟩ := h
  cases zs with
  | nil => rwa [List.append_nil]
  | cons z zs =>
      rw [List.dropLast_append_cons]
      exact List.mem_append_left _ (List.dropLast_subset xs hx)

structure Legible (v : Vocabulary) (ts : List Token) : Prop where
  closed : ∀ t ∈ ts.dropLast, Closed v t
  ending : ∀ t ∈ ts, Closed v t ∨ Open v t

theorem legible_of_front {v : Vocabulary} {n : Nat} {s : Text} {ts : List Token}
    (h : ts <+: (tokensFrom v n s).filter Token.isSignificant) : Legible v ts where
  closed := fun _ ht => closed_of_mem_dropLast (mem_dropLast_of_front h ht)
  ending := by
    intro t ht
    obtain ⟨hmem, hsig⟩ := List.mem_filter.1 (h.subset ht)
    obtain ⟨before, after, hsplit⟩ := List.append_of_mem hmem
    obtain ⟨-, rest, -, -, hreads, -⟩ := tokensFrom_eq_append hsig hsplit
    by_cases hrest : rest = []
    · exact (hrest ▸ hreads).closed_or_open
    · exact .inl ⟨rest, hrest, hreads⟩

theorem Legible.begun {v : Vocabulary} {ts : List Token} (h : Legible v ts) :
    ∀ t ∈ ts, Begun t := fun t ht =>
  (h.ending t ht).elim Closed.begun fun hopen => hopen.atEnd.begun

theorem Open.kind_ne_keyword {v : Vocabulary} {t : Token} (h : Open v t) : t.kind ≠ .keyword := by
  rcases h.kind with hkind | hkind <;> simp [hkind]

theorem Open.not_tokenize {v : Vocabulary} {t : Token} (h : Open v t) (ts : List Token) :
    v.tokenize (t.text ++ ['\n']) ≠ ⟨t.kind, t.text, 0⟩ :: ts := by
  intro htokens
  have hreads := tokensFrom_readsToken h.extended 0
  rw [List.append_nil] at hreads
  obtain ⟨htoken, -⟩ := List.cons.inj (hreads.symm.trans htokens)
  have htext : t.text ++ ['\n'] = t.text := congrArg Token.text htoken
  simp at htext

namespace Closed

variable {v : Vocabulary}

theorem join_name {p u q : Token} (hp : Closed v p) (hu : Closed v u)
    (hkind : p.kind = .identifier) (hkind' : u.kind = .identifier)
    (hpoint : p.text.getLast? = some '.') (hq : q.kind = .identifier)
    (htext : q.text = p.text ++ u.text) : Closed v q := by
  have hword {t : Token} (ht : Closed v t) (hkind : t.kind = .identifier) :
      ∃ rest, Reads .identifier t.text rest := by
    obtain ⟨rest, -, hreads⟩ := ht
    rcases hreads.word_or_other with ⟨hword, -⟩ | ⟨-, hother, -⟩
    · exact ⟨rest, hword⟩
    · exact absurd hkind hother
  obtain ⟨rest, hp⟩ := hword hp hkind
  obtain ⟨rest', hu⟩ := hword hu hkind'
  obtain ⟨c, r, hcons, -⟩ := id hp
  have hc := (Reads.word_initial (.inl rfl) (hcons ▸ hp)).2.1
  have hall : ∀ d ∈ r ++ u.text, isIdentifierChar d = true := by
    intro d hd
    rcases List.mem_append.1 hd with hd | hd
    · exact hp.forall_isIdentifierChar d (by simp [hcons, hd])
    · exact hu.forall_isIdentifierChar d hd
  refine ⟨['\n'], by simp, .identifier, by simp, ?_, ?_⟩
  · rw [htext, hcons, List.cons_append]
    exact .of_word hc hall fun d hd => (isNeutral_excludes (newline_isNeutral d hd)).name
  · have hcontains : List.contains q.text '.' = true := by
      rw [htext, List.contains_iff_mem]
      exact List.mem_append_left _ (List.mem_of_getLast? hpoint)
    simp only [token, hcontains, Bool.not_true, Bool.false_and, Bool.false_eq_true, if_false]
    rw [← hq]

theorem of_operator {q : Token} (hkind : q.kind = .operator)
    (h : Reads .operator q.text ['\n']) : Closed v q :=
  ⟨['\n'], by simp, .of_reads (by simp [hkind]) (by simp [hkind]) (hkind ▸ h)⟩

theorem text_of_head {u : Token} (hu : Closed v u) :
    (u.text.head? = some '>' → u.text = ['>'] ∨ u.text = ['>', '=']) ∧
      (u.text.head? = some '*' → u.text = ['*']) := by
  obtain ⟨rest, -, k, -, hreads, -⟩ := hu
  constructor
  · intro hhead
    obtain ⟨r, htext⟩ := List.head?_eq_some_iff.1 hhead
    rw [htext] at hreads ⊢
    rcases hreads.greater with rfl | rfl <;> simp
  · intro hhead
    obtain ⟨r, htext⟩ := List.head?_eq_some_iff.1 hhead
    rw [htext] at hreads ⊢
    rw [hreads.star]

end Closed

end EmbeddedSql.Lexer
