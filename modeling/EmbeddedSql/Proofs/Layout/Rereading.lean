import EmbeddedSql.Proofs.Layout.Placement
import EmbeddedSql.Proofs.Token.Likeness
import EmbeddedSql.Proofs.Token.Stream

namespace EmbeddedSql.Layout

open Text Lexer

variable {v : Vocabulary}

def casedToken (case : KeywordCase) (t : Token) : Token := { t with text := casedText case t }

theorem casedText_punct (case : KeywordCase) {t : Token} {c : Char} (h : t.isPunct c = true) :
    casedText case t = [c] := by
  simp only [Token.isPunct, Bool.and_eq_true, decide_eq_true_eq, beq_iff_eq] at h
  rw [casedText_other case (by simp [h.1]), h.2]

theorem casedToken_other (case : KeywordCase) {t : Token} (ht : t.kind ≠ .keyword) :
    casedToken case t = t := by
  rw [casedToken, casedText_other case ht]

theorem readsToken_neutral (case : KeywordCase) {t : Token} {rest : Text} (ht : Closed v t)
    (hcomment : t.isLineComment = true → rest = [] ∨ rest.head? = some '\n')
    (hbare : t.isPunct backslash = true → ∀ d ∈ rest.head?, isBlank d = true)
    (hcolon : t.isPunct ':' = true → rest.head? ≠ some ':')
    (hneutral : ∀ d ∈ rest.head?, isNeutral d = true) :
    ReadsToken v (casedToken case t) rest := by
  obtain ⟨rest₀, hrest₀, hreads⟩ := ht
  rcases hreads.word_or_other with ⟨hword, htoken⟩ | ⟨hreads, hidentifier, hkeyword, hblank⟩
  · exact ReadsToken.cased case hword htoken fun d hd => (isNeutral_excludes (hneutral d hd)).name
  · rw [casedToken_other case hkeyword]
    refine .of_reads hidentifier hblank ?_
    by_cases hline : t.isLineComment = true
    · obtain ⟨hkind, hstart⟩ := by simpa [Token.isLineComment] using hline
      rw [hkind] at hreads ⊢
      exact hreads.lineComment hstart (hcomment hline)
    by_cases hslash : t.text = [backslash]
    · rw [hslash] at hreads ⊢
      have hkind := hreads.kind_of_backslash
      rw [hkind]
      exact .bareBackslash (hbare (by simp [Token.isPunct, hkind, hslash]))
    · refine hreads.neutral hrest₀ hblank (fun hkind => ?_) hslash (fun htext => ?_) hneutral
      · simpa [Token.isLineComment, hkind] using hline
      · rw [htext] at hreads
        exact hcolon (by simp [Token.isPunct, hreads.kind_of_colon, htext])

theorem readsToken_lineEnd (case : KeywordCase) {t : Token} {rest : Text} (ht : Closed v t)
    (hrest : rest = [] ∨ rest = ['\n']) : ReadsToken v (casedToken case t) rest := by
  refine readsToken_neutral case ht (fun _ => ?_) (fun _ => ?_) (fun _ => ?_) ?_
  all_goals rcases hrest with rfl | rfl <;> simp [isBlank, isNeutral]

/-- Whether two neighbours that touch are read as others than they are: parts of one name, a sign
and an operator that begins with the rest of a longer one, or three colons. `unary` says that `p` is
a sign. -/
def merges (unary : Bool) (p t : Token) : Bool :=
  (p.kind = .identifier && p.text.getLast? == some '.' && t.kind = .identifier) ||
    (unary && p.text == ['-'] && t.kind = .operator && t.text.head? == some '>') ||
    (unary && p.text == ['~'] && t.kind = .operator && t.text.head? == some '*') ||
    (p.isPunct ':' && isCast t)

def anyMerges : Option Token → List Token → Bool
  | previous, p :: t :: r => merges (isUnary p previous) p t || anyMerges (some p) (t :: r)
  | _, _ => false

theorem isSign_of_isUnary {t : Token} {previous : Option Token} (h : isUnary t previous = true) :
    isSign t = true := by
  rw [isUnary_eq] at h
  exact (Bool.and_eq_true_iff.1 h).1

inductive Touches (p : Token) (unary : Bool) (t : Token) : Prop
  | sign : unary = true → t.text.head? ≠ some '-' → Touches p unary t
  | closing {c : Char} : p.isPunct backslash = false → c ∈ [',', ';', ')', ']'] →
      t.isPunct c = true → Touches p unary t
  | opened {c : Char} : c ∈ ['(', '['] → p.isPunct c = true → Touches p unary t
  | casting : isCast p = true → Touches p unary t
  | cast : p.isPunct backslash = false → isCast t = true → Touches p unary t
  | point : t.isPunct '.' = true → isQuoted p = true ∨ p.isClosing = true → Touches p unary t
  | dotted : p.isPunct '.' = true ∨ p.kind = .identifier ∧ p.text.getLast? = some '.' →
      t.kind = .identifier ∨ isQuoted t = true ∨ t.kind = .operator ∧ t.text = ['*'] →
      Touches p unary t
  | call {c : Char} : c ∈ ['(', '['] → t.isPunct c = true →
      p.kind = .identifier ∨ p.kind = .keyword → Touches p unary t

theorem touches_of_separated {p t : Token} {unary parenSpace : Bool}
    (h : separated p unary parenSpace t = false) : Touches p unary t := by
  unfold separated at h
  split at h
  next hu => exact .sign hu (by simpa using h)
  split at h
  · simp at h
  next hslash =>
  have hslash := Bool.eq_false_iff.2 hslash
  split at h
  next hclosing =>
    simp only [Token.isClosing, Bool.or_eq_true] at hclosing
    rcases hclosing with (hc | hc) | hc | hc
    · exact .closing hslash (c := ',') (by decide) hc
    · exact .closing hslash (c := ';') (by decide) hc
    · exact .closing hslash (c := ')') (by decide) hc
    · exact .closing hslash (c := ']') (by decide) hc
  split at h
  next hopening =>
    rcases (by simpa [Token.isOpening] using hopening) with hc | hc
    · exact .opened (c := '(') (by decide) hc
    · exact .opened (c := '[') (by decide) hc
  split at h
  next hcast =>
    rcases Bool.or_eq_true_iff.1 hcast with hc | hc
    · exact .casting hc
    · exact .cast hslash hc
  split at h
  next hpoint => exact .point hpoint (Bool.or_eq_true_iff.1 ((Bool.not_eq_false' _).mp h))
  split at h
  next hdot =>
    have hnext := (Bool.not_eq_false' _).mp h
    simp only [Bool.or_eq_true, Bool.and_eq_true, decide_eq_true_eq, beq_iff_eq, or_assoc] at hnext
    exact .dotted (by simpa using hdot) hnext
  split at h
  next hopening =>
    have hkind : p.kind = .identifier ∨ p.kind = .keyword := by
      split at h
      next hk => exact .inl hk
      next hk => exact .inr hk
      · simp at h
    rcases (by simpa [Token.isOpening] using hopening) with hc | hc
    · exact .call (c := '(') (by decide) hc hkind
    · exact .call (c := '[') (by decide) hc hkind
  · simp at h

section Touching

variable (case : KeywordCase) {p t : Token} {rest : Text}

theorem readsToken_mark (hkind : p.kind = .punctuation ∨ p.kind = .operator)
    (h : Reads p.kind p.text rest) : ReadsToken v (casedToken case p) rest := by
  have hplain : p.kind ≠ .keyword ∧ p.kind ≠ .identifier ∧ p.kind ≠ .blank := by
    rcases hkind with hkind | hkind <;> simp [hkind]
  rw [casedToken_other case hplain.1]
  exact .of_reads hplain.2.1 hplain.2.2 h

theorem readsToken_word (hp : Closed v p) (hkind : p.kind = .identifier ∨ p.kind = .keyword)
    (hrest : ∀ d ∈ rest.head?, isIdentifierChar d = false) :
    ReadsToken v (casedToken case p) rest := by
  obtain ⟨rest₀, -, hreads⟩ := hp
  rcases hreads.word_or_other with ⟨hword, htoken⟩ | ⟨-, hidentifier, hkeyword, -⟩
  · exact ReadsToken.cased case hword htoken hrest
  · exact absurd hkind (by simp [hidentifier, hkeyword])

theorem readsToken_quoted (hp : Closed v p) (hquoted : isQuoted p = true)
    (hrest : ∀ d ∈ rest.head?, d ∉ [singleQuote, doubleQuote, backtick]) :
    ReadsToken v (casedToken case p) rest := by
  obtain ⟨rest₀, hrest₀, hreads⟩ := hp
  obtain ⟨hkind, q, hq, hhead⟩ := isQuoted_iff.1 hquoted
  rw [casedToken_other case (by simp [hkind])]
  refine .of_reads (by simp [hkind]) (by simp [hkind]) ?_
  rcases hreads.word_or_other with ⟨-, htoken⟩ | ⟨hreads, -⟩
  · exact absurd (ReadsToken.word_kind htoken) (by simp [hkind])
  · obtain ⟨c, r, htext, -⟩ := id hreads
    rw [htext] at hreads hhead ⊢
    obtain rfl : c = q := by simpa using hhead
    exact hreads.quoted (by simpa using hq) hrest₀ fun hnext => hrest c hnext hq

theorem readsToken_sign (hp : isSign p = true) (ht : t.text ≠ []) (hdash : t.text.head? ≠ some '-')
    (hless : p.text = ['-'] → t.text.head? ≠ some '>')
    (hstar : p.text = ['~'] → t.text.head? ≠ some '*') :
    ReadsToken v (casedToken case p) (casedText case t ++ rest) := by
  obtain ⟨hkind, htext⟩ := isSign_iff.1 hp
  have hhead {m : Char} (hm : m ∈ ['_', '.', '-', '>', '*', '\n']) (h : t.text.head? ≠ some m) :
      (casedText case t ++ rest).head? ≠ some m := by
    rw [List.head?_append_of_ne_nil _ (casedText_eq_nil.not.2 ht)]
    exact (head?_casedText case t hm).not.2 h
  refine readsToken_mark case (.inr hkind) ?_
  rw [hkind]
  rcases htext with htext | htext | htext
  · rw [htext]
    exact .sign (.inl rfl) (fun _ => ⟨hhead (by decide) hdash, hhead (by decide) (hless htext)⟩)
      (by simp)
  · rw [htext]
    exact .sign (.inr (.inl rfl)) (by simp) (by simp)
  · rw [htext]
    exact .sign (.inr (.inr rfl)) (by simp) fun _ => hhead (by decide) (hstar htext)

theorem readsToken_bracket {c : Char} (hc : c ∈ ['(', ')', ',', ';', '[', ']'])
    (hp : p.isPunct c = true) : ReadsToken v (casedToken case p) rest := by
  obtain ⟨hkind, htext⟩ := isPunct_iff.1 hp
  refine readsToken_mark case (.inl hkind) ?_
  rw [hkind, htext]
  exact .bracket hc _

theorem head?_after_point (ht : Begun t)
    (hnext : t.kind = .identifier ∨ isQuoted t = true ∨ t.kind = .operator ∧ t.text = ['*']) :
    ∀ d ∈ (casedText case t ++ rest).head?, d.isDigit = false ∧
      (t.kind = .identifier ∨ isIdentifierChar d = false) := by
  have hquotes : ([singleQuote, doubleQuote, backtick].all fun c =>
      !c.isDigit && !isIdentifierChar c) = true := by decide
  have hplain : t.kind ≠ .keyword := by
    rcases hnext with hkind | hquoted | hstar
    · simp [hkind]
    · simp [(isQuoted_iff.1 hquoted).1]
    · simp [hstar.1]
  rw [casedText_other case hplain, List.head?_append_of_ne_nil _ ht.text_ne_nil]
  intro d hd
  rcases hnext with hkind | hquoted | hstar
  · exact ⟨(ht.word hkind d hd).1, .inl hkind⟩
  · obtain ⟨-, c, hc, hhead⟩ := isQuoted_iff.1 hquoted
    obtain rfl : c = d := Option.some.inj (hhead.symm.trans hd)
    have := List.all_eq_true.1 hquotes c hc
    simp_all
  · obtain rfl : '*' = d := by simpa [hstar.2] using hd
    exact ⟨by decide, .inr (by decide)⟩

theorem readsToken_touching (hp : Closed v p) (ht : Begun t) {unary : Bool}
    (htouch : Touches p unary t) (hunary : unary = true → isSign p = true)
    (hcomment : p.isLineComment = false) (hmerge : merges unary p t = false) :
    ReadsToken v (casedToken case p) (casedText case t ++ rest) := by
  simp only [merges, Bool.or_eq_false_iff] at hmerge
  obtain ⟨⟨⟨hname, hdash⟩, htilde⟩, hcolon⟩ := hmerge
  cases htouch with
  | sign hu hhead =>
      refine readsToken_sign case (hunary hu) ht.text_ne_nil hhead (fun hp h => ?_) fun hp h => ?_
      · simp [hu, hp, h, ht.operator _ h (.inl rfl)] at hdash
      · simp [hu, hp, h, ht.operator _ h (.inr rfl)] at htilde
  | closing hslash hc htc =>
      rw [casedText_punct case htc]
      have hmarks : ([',', ';', ')', ']'].all fun c => c != ':' && isNeutral c) = true := by decide
      obtain ⟨hcolon, hneutral⟩ := Bool.and_eq_true_iff.1 (List.all_eq_true.1 hmarks _ hc)
      refine readsToken_neutral case hp (by simp [hcomment]) (by simp [hslash]) (fun _ => ?_) ?_
      · simpa using hcolon
      · simpa using hneutral
  | opened hc hpc => exact readsToken_bracket case (by simp only [List.mem_cons] at hc ⊢; tauto) hpc
  | casting hcast =>
      obtain ⟨hkind, htext⟩ := isCast_iff.1 hcast
      refine readsToken_mark case (.inr hkind) ?_
      rw [hkind, htext]
      exact .cast _
  | cast hslash hcast =>
      obtain ⟨hkind, htext⟩ := isCast_iff.1 hcast
      rw [casedText_other case (by simp [hkind]), htext]
      refine readsToken_neutral case hp (by simp [hcomment]) (by simp [hslash]) (fun h => ?_) ?_
      · simp [h, hcast] at hcolon
      · simp [isNeutral]
  | point hpoint hprev =>
      rw [casedText_punct case hpoint]
      rcases hprev with hquoted | hclosing
      · refine readsToken_quoted case hp hquoted fun d hd => ?_
        obtain rfl : '.' = d := by simpa using hd
        decide
      · obtain ⟨c, hc, hpc⟩ := isClosing_iff.1 hclosing
        exact readsToken_bracket case (by simp only [List.mem_cons] at hc ⊢; tauto) hpc
  | dotted hdot hnext =>
      have hfirst : ∀ d ∈ (casedText case t ++ rest).head?, d.isDigit = false ∧
          (t.kind = .identifier ∨ isIdentifierChar d = false) := head?_after_point case ht hnext
      rcases hdot with hpoint | ⟨hkind, hlast⟩
      · obtain ⟨hkind, htext⟩ := isPunct_iff.1 hpoint
        refine readsToken_mark case (.inl hkind) ?_
        rw [hkind, htext]
        exact .point fun d hd => (hfirst d hd).1
      · refine readsToken_word case hp (.inl hkind) fun d hd => ?_
        rcases (hfirst d hd).2 with hword | hother
        · simp [hkind, hlast, hword] at hname
        · exact hother
  | call hc htc hkind =>
      rw [casedText_punct case htc]
      have hmarks : (['(', '['].all fun c => !isIdentifierChar c) = true := by decide
      exact readsToken_word case hp hkind (by simpa using List.all_eq_true.1 hmarks _ hc)

end Touching

theorem IsGap.isAsciiBlank {g : Text} (hg : IsGap g) : ∀ c ∈ g, isAsciiBlank c = true := by
  obtain ⟨n, rfl | rfl⟩ := hg
  · intro c hc
    rw [List.eq_of_mem_replicate hc]
    decide
  · intro c hc
    rcases List.mem_cons.1 hc with rfl | hc
    · decide
    · rw [List.eq_of_mem_replicate hc]
      decide

theorem tokensFrom_flatMap (case : KeywordCase) {es : List Placed} {tail : Text}
    (hgaps : ∀ e ∈ es, ∀ c ∈ e.gap, isAsciiBlank c = true)
    (hchain : es.IsChain fun p e => ∀ rest,
      ReadsToken v (casedToken case p.token) (e.text case ++ rest))
    (hlast : ∀ e ∈ es.getLast?, ReadsToken v (casedToken case e.token) tail) (n : Nat) :
    ∃ ts, tokensFrom v n (es.flatMap (Placed.text case) ++ tail) =
        ts ++ tokensFrom v (n + bytes (es.flatMap (Placed.text case))) tail ∧
      contents ts = es.map (fun e => (e.token.kind, casedText case e.token)) ∧
      ∀ e ∈ es.getLast?, ∃ us m, ts = us ++ [⟨e.token.kind, casedText case e.token, m⟩] ∧
        m + bytes (casedText case e.token) = n + bytes (es.flatMap (Placed.text case)) := by
  induction es generalizing n with
  | nil => exact ⟨[], by simp, rfl, by simp⟩
  | cons e es ih =>
      have hreads : ReadsToken v (casedToken case e.token)
          (es.flatMap (Placed.text case) ++ tail) := by
        cases es with
        | nil => exact hlast e (by simp)
        | cons f es =>
            rw [List.flatMap_cons, List.append_assoc]
            exact (List.isChain_cons_cons.1 hchain).1 _
      obtain ⟨blanks, hblanks, hgap⟩ := tokensFrom_blanks (v := v) (hgaps e (by simp))
        hreads.blankTail_eq_zero n
      obtain ⟨ts, hts, hcontents, hend⟩ := ih (fun f hf => hgaps f (by simp [hf])) hchain.tail
        (fun f hf => hlast f (by cases es <;> simp_all))
        (n + bytes e.gap + bytes (casedText case e.token))
      have htoken := tokensFrom_readsToken hreads (n + bytes e.gap)
      have hbytes : n + bytes e.gap + bytes (casedText case e.token) +
          bytes (es.flatMap (Placed.text case)) =
            n + bytes ((e :: es).flatMap (Placed.text case)) := by
        simp only [List.flatMap_cons, Placed.text, bytes_append]
        omega
      refine ⟨blanks ++ ⟨e.token.kind, casedText case e.token, n + bytes e.gap⟩ :: ts, ?_, ?_, ?_⟩
      · rw [← hbytes, List.flatMap_cons, Placed.text, List.append_assoc, List.append_assoc]
        refine hgap.trans ?_
        rw [List.append_assoc, List.cons_append, ← hts]
        exact congrArg (blanks ++ ·) htoken
      · have hsig : Token.isSignificant
            ⟨e.token.kind, casedText case e.token, n + bytes e.gap⟩ = true := hreads.isSignificant
        rw [contents_append, hblanks, contents, List.filter_cons_of_pos hsig, List.map_cons,
          List.nil_append, List.map_cons]
        exact congrArg (_ :: ·) hcontents
      · intro f hf
        cases es with
        | nil =>
            obtain rfl : e = f := by simpa using hf
            obtain rfl : ts = [] := by simpa using hts
            exact ⟨blanks, _, rfl, by simpa using hbytes⟩
        | cons g es =>
            obtain ⟨us, m, hus, hm⟩ := hend f (by simpa using hf)
            exact ⟨blanks ++ _ :: us, m, by rw [hus, List.append_assoc, List.cons_append],
              hm.trans hbytes⟩

theorem contents_flatMap (case : KeywordCase) {es : List Placed} {tail : Text}
    (hgaps : ∀ e ∈ es, ∀ c ∈ e.gap, isAsciiBlank c = true)
    (htail : ∀ c ∈ tail, isAsciiBlank c = true)
    (hchain : es.IsChain fun p e => ∀ rest,
      ReadsToken v (casedToken case p.token) (e.text case ++ rest))
    (hlast : ∀ e ∈ es.getLast?, ReadsToken v (casedToken case e.token) tail) (n : Nat) :
    contents (tokensFrom v n (es.flatMap (Placed.text case) ++ tail)) =
      es.map fun e => (e.token.kind, casedText case e.token) := by
  obtain ⟨ts, hts, hcontents, -⟩ := tokensFrom_flatMap case hgaps hchain hlast n
  obtain ⟨blanks, hblanks, hrest⟩ := tokensFrom_blanks (v := v) htail (s := []) rfl
    (n + bytes (es.flatMap (Placed.text case)))
  rw [List.append_nil] at hrest
  rw [hts, hrest, contents_append, contents_append, hcontents, hblanks]
  simp [tokensFrom, contents]

theorem Placed.Follows.readsToken (case : KeywordCase) {p e : Placed} (h : p.Follows e)
    (hp : Closed v p.token) (he : Begun e.token) (hunary : p.unary = true → isSign p.token = true)
    (hmerge : merges p.unary p.token e.token = false) (rest : Text) :
    ReadsToken v (casedToken case p.token) (e.text case ++ rest) := by
  rw [Placed.text, List.append_assoc]
  by_cases hgap : e.gap = []
  · obtain ⟨parenSpace, hsep⟩ := h.touching hgap
    have hcomment : p.token.isLineComment = false := by
      rw [Bool.eq_false_iff]
      intro hline
      have := h.afterComment hline
      simp [Placed.breaks, hgap] at this
    rw [hgap, List.nil_append]
    exact readsToken_touching case hp he (touches_of_separated hsep) hunary hcomment hmerge
  · obtain ⟨c, u, hcons⟩ := List.exists_cons_of_ne_nil hgap
    have hc : c = ' ' ∨ c = '\n' := by
      obtain ⟨n, hspaces | hbreak⟩ := h.isGap
      · have hmem : c ∈ spaces n := by simp [← hspaces, hcons]
        exact .inl (List.eq_of_mem_replicate hmem)
      · exact .inr (List.cons.inj (hcons.symm.trans hbreak)).1
    rw [hcons, List.cons_append]
    refine readsToken_neutral case hp (fun hline => .inr ?_) (fun _ => ?_) (fun _ => ?_) ?_
    · have := h.afterComment hline
      simpa [Placed.breaks, hcons] using this
    · rcases hc with rfl | rfl <;> simp [isBlank]
    · rcases hc with rfl | rfl <;> simp
    · rcases hc with rfl | rfl <;> simp [isNeutral]

theorem isChain_readsToken (case : KeywordCase) {es : List Placed} {previous : Option Token}
    (hfirst : ∀ e ∈ es.head?, e.unary = isUnary e.token previous)
    (hchain : es.IsChain Placed.Follows) (hclosed : ∀ e ∈ es.dropLast, Closed v e.token)
    (hbegun : ∀ e ∈ es, Begun e.token)
    (hmerge : anyMerges previous (es.map Placed.token) = false) :
    es.IsChain fun p e => ∀ rest, ReadsToken v (casedToken case p.token) (e.text case ++ rest) := by
  induction es generalizing previous with
  | nil => simp
  | cons p es ih =>
      cases es with
      | nil => simp
      | cons e es =>
          obtain ⟨hfollows, hchain⟩ := List.isChain_cons_cons.1 hchain
          have hp := hfirst p (by simp)
          obtain ⟨hpe, hrest⟩ := Bool.or_eq_false_iff.1 hmerge
          rw [← hp] at hpe
          refine List.isChain_cons_cons.2 ⟨?_, ih (fun f hf => ?_) hchain ?_ ?_ hrest⟩
          · exact hfollows.readsToken case (hclosed p (by simp)) (hbegun e (by simp))
              (fun hu => isSign_of_isUnary (hp ▸ hu)) hpe
          · obtain rfl : e = f := by simpa using hf
            exact hfollows.unary
          · exact fun f hf => hclosed f (by simp [hf])
          · exact fun f hf => hbegun f (by simp [hf])

theorem tokenize_format (v : Vocabulary) (o : LayoutOptions) (sql : Text)
    (hend : ∀ t ∈ ((v.tokenize sql).filter Token.isSignificant).getLast?,
      ∃ ts, v.tokenize (t.text ++ ['\n']) = ⟨t.kind, t.text, 0⟩ :: ts)
    (hmerge : anyMerges none ((v.tokenize sql).filter Token.isSignificant) = false) :
    contents (v.tokenize (format o (v.tokenize sql))) =
      ((v.tokenize sql).filter Token.isSignificant).map fun t =>
        (t.kind, casedText o.keywordCase t) := by
  have hclosed : ∀ t ∈ (v.tokenize sql).filter Token.isSignificant, Closed v t := by
    intro t ht
    by_cases hlast : t ∈ ((v.tokenize sql).filter Token.isSignificant).getLast?
    · obtain ⟨ts, hts⟩ := hend t hlast
      exact closed_of_tokenize (List.of_mem_filter ht) hts
    · exact closed_of_mem_dropLast
        (List.mem_dropLast_of_mem_of_ne_getLast? ht fun h => hlast h.symm)
  obtain ⟨es, hes, hseq, hformat⟩ := format_placed o (v.tokenize sql)
    fun t ht => (hclosed t ht).begun.text_ne_nil
  have hclosed : ∀ e ∈ es, Closed v e.token := fun e he =>
    hclosed e.token (hes ▸ List.mem_map_of_mem he)
  have hchain := isChain_readsToken (v := v) o.keywordCase (fun e he => (hseq.first e he).2)
    hseq.chain (fun e he => hclosed e (List.dropLast_subset es he))
    (fun e he => (hclosed e he).begun) (hes ▸ hmerge)
  rw [← hes, hformat, List.map_map]
  refine contents_flatMap o.keywordCase (fun e he => (hseq.isGap e he).isAsciiBlank) ?_ hchain
    (fun e he => ?_) 0
  · split <;> simp [isAsciiBlank]
  · refine readsToken_lineEnd o.keywordCase (hclosed e (List.mem_of_getLast? he)) ?_
    split <;> simp

theorem tokenize_format_comment :
    let sql := "select -1 -- c\n, :a::int from t where x%2=0 and y = 'z'".toList
    contents (Vocabulary.tokenize {} (format {} (Vocabulary.tokenize {} sql))) =
      ((Vocabulary.tokenize {} sql).filter Token.isSignificant).map fun t =>
        (t.kind, casedText .upper t) := by
  refine tokenize_format {} {} _ (fun t ht => ?_) (by decide +kernel)
  have hlast : ((Vocabulary.tokenize {}
      "select -1 -- c\n, :a::int from t where x%2=0 and y = 'z'".toList).filter
        Token.isSignificant).getLast? = some ⟨.literal, "'z'".toList, 52⟩ := by decide +kernel
  obtain rfl : ⟨.literal, "'z'".toList, 52⟩ = t := by rwa [hlast, Option.mem_some_iff] at ht
  exact ⟨[⟨.blank, [' '], 3⟩], by decide +kernel⟩

end EmbeddedSql.Layout
