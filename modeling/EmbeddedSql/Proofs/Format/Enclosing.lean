import EmbeddedSql.Proofs.Format.Scope
import EmbeddedSql.Proofs.Layout.Rereading
import EmbeddedSql.Proofs.Literal.Lagging
import EmbeddedSql.Proofs.Token.Ending
import EmbeddedSql.Proofs.Token.Shielding

namespace EmbeddedSql

open Text Lexer Layout Inside

theorem isInert_of_isBlankEscape {c : Char} (hc : isBlankEscape c = true) : isInert c = true := by
  simp only [isBlankEscape, Bool.or_eq_true, beq_iff_eq] at hc
  rcases hc with (rfl | rfl) | rfl <;> rfl

theorem isInert_of_isBlank {c : Char} (hc : isBlank c = true) (hascii : isAsciiBlank c = false) :
    isInert c = true := by
  rw [isInert, Bool.not_eq_true', Bool.eq_false_iff]
  intro hmem
  simp only [List.contains_eq_mem, decide_eq_true_eq, List.mem_cons, List.not_mem_nil,
    or_false] at hmem
  rcases hmem with rfl | rfl | rfl | rfl | rfl | rfl | rfl | rfl <;>
    first | exact absurd hc (by decide) | exact absurd hascii (by decide)

namespace QuoteStyle

variable {style : QuoteStyle} {s s' x : Inside}

theorem run_blankEscape {c : Char} (hc : isBlankEscape c = true) (s : Inside) (t : Text) :
    style.run s (backslash :: c :: t) = style.run s.settle t := by
  have hinert := isInert_of_isBlankEscape hc
  have hfirst : ∃ y, style.next s backslash = some y ∧ y.settle = s.settle := by
    cases s with
    | plain k =>
        refine ⟨.shielded, ?_, rfl⟩
        rw [next, nextPlain, if_pos rfl]
    | shielded => exact ⟨.plain 0, rfl, rfl⟩
    | dollar => exact ⟨.shielded, rfl, rfl⟩
    | braced depth => exact ⟨.braced depth, by cases style <;> rfl, rfl⟩
    | broken => exact ⟨.broken, rfl, rfl⟩
  obtain ⟨y, hy, hsettle⟩ := hfirst
  rw [run_cons_some hy, run_cons_some (next_inert hinert y), hsettle]

theorem run_blankTail (hs : s.settle = s) {r rest : Text}
    (h : blankTail (r ++ rest) = r.length) :
    style.run s r = some s ∨ style.run s r = some .broken := by
  have hblank {c : Char} (hc : isAsciiBlank c = true) :
      style.next s c = some s ∨ style.next s c = some .broken := by
    have hnext : style.next s c = some s.settle ∨ style.next s c = some .broken := next_blank hc s
    rwa [hs] at hnext
  fun_induction blankTail r with
  | case1 => exact .inl rfl
  | case2 c hc =>
      rcases hblank hc with hnext | hnext
      · exact .inl (run_cons_some hnext [])
      · exact .inr (run_cons_some hnext [])
  | case3 c hc =>
      cases rest with
      | nil => simp [blankTail, hc] at h
      | cons d rest =>
          simp only [List.singleton_append, blankTail, hc, List.length_singleton,
            Bool.false_eq_true, if_false] at h
          split at h <;> omega
  | case4 c d r hc ih =>
      simp only [List.cons_append, blankTail, hc, if_true, List.length_cons] at h ih
      rcases hblank hc with hnext | hnext
      · rw [run_cons_some hnext]
        exact ih (by omega)
      · exact .inr (by rw [run_cons_some hnext, run_broken])
  | case5 c d r hc hescape ih =>
      obtain ⟨hslash, hd⟩ := Bool.and_eq_true_iff.1 hescape
      obtain rfl : c = backslash := by simpa using hslash
      rw [run_blankEscape hd, hs]
      simp only [List.cons_append, blankTail, hc, hescape, if_true, List.length_cons,
        Bool.false_eq_true, if_false] at h
      exact ih (by omega)
  | case6 c d r hc hescape =>
      simp only [List.cons_append, blankTail, hc, hescape, List.length_cons, Bool.false_eq_true,
        if_false] at h
      omega

theorem run_blank {u rest : Text} (h : Reads .blank u rest) (s : Inside) :
    style.run s u = some s.settle ∨ style.run s u = some .broken := by
  obtain ⟨c, r, rfl, h⟩ := h
  rcases lexeme_blank h with ⟨hc, hlength⟩ | ⟨d, t, rfl, ht, hd, hlength⟩
  · have hnext : style.next s c = some s.settle ∨ style.next s c = some .broken := next_blank hc s
    rcases hnext with hnext | hnext
    · rw [run_cons_some hnext]
      exact run_blankTail (settle_settle s) hlength.symm
    · exact .inr (by rw [run_cons_some hnext, run_broken])
  · cases r with
    | nil =>
        simp only [List.length_nil] at hlength
        omega
    | cons e r =>
        rw [List.cons_append] at ht
        obtain ⟨rfl, rfl⟩ := List.cons.inj ht
        rw [run_blankEscape hd]
        have hlength' : blankTail (r ++ rest) = r.length := by
          simp only [List.length_cons] at hlength
          omega
        exact run_blankTail (settle_settle s) hlength'

theorem run_enter {g u : Text} {pending : Bool} (hlags : Lags s s')
    (hg : ∀ c ∈ g, isAsciiBlank c = true)
    (hgap : g = [] → s'.settle = s' ∨ ∀ c ∈ u.head?, isInert c = true)
    (hshield : pending = false → s = .shielded → ∀ c ∈ u.head?, isInert c = true) (hu : u ≠ [])
    (hrun : style.run (if pending then s.settle else s) u = some x) (hx : x ≠ .broken) :
    ∃ x', style.run s' (g ++ u) = some x' ∧ Lags x x' := by
  have hinert {y y' : Inside} (hhead : ∀ c ∈ u.head?, isInert c = true)
      (hlags : Lags y.settle y'.settle) (hy : style.run y u = some x) :
      ∃ x', style.run y' u = some x' ∧ Lags x x' := by
    obtain ⟨c, t, rfl⟩ := List.exists_cons_of_ne_nil hu
    have hc : isInert c = true := hhead c rfl
    rw [run_cons_some (next_inert hc _)] at hy ⊢
    exact run_lags hlags hy hx
  by_cases hnil : g = []
  · subst hnil
    rw [List.nil_append]
    cases pending with
    | false => exact run_lags hlags hrun hx
    | true =>
        rw [if_pos rfl] at hrun
        rcases hgap rfl with hsettled | hhead
        · exact run_lags (hsettled ▸ hlags.settle) hrun hx
        · exact hinert hhead (by rw [settle_settle]; exact hlags.settle) hrun
  · have hgap : style.run s' g = some s'.settle ∨ style.run s' g = some .broken :=
      run_blanks hg hnil s'
    rcases hgap with hblank | hblank
    · rw [run_append_some hblank]
      cases pending with
      | true => exact run_lags hlags.settle hrun hx
      | false =>
          rw [if_neg Bool.false_ne_true] at hrun
          by_cases hs : s = .shielded
          · exact hinert (hshield rfl hs) (by rw [settle_settle]; exact hlags.settle) hrun
          · exact run_lags (hlags.settle_right hs) hrun hx
    · exact ⟨.broken, by rw [run_append_some hblank, run_broken], .broken x⟩

theorem run_casedText (case : KeywordCase) (s : Inside) (t : Token) :
    style.run s (casedText case t) = style.run s t.text := by
  by_cases ht : t.kind = .keyword
  · rw [casedText_keyword case ht, run_text]
  · rw [casedText_other case ht]

end QuoteStyle

theorem text_of_isPunct {t : Token} {c : Char} (h : t.isPunct c = true) : t.text = [c] := by
  simp_all [Token.isPunct]

theorem isInert_of_touches {p t : Token} {unary : Bool} (h : Touches p unary t)
    (hunary : unary = true → isSign p = true) :
    (∃ c, p.text.getLast? = some c ∧ isInert c = true) ∨
      ∀ c ∈ t.text.head?, isInert c = true := by
  cases h with
  | sign hsign =>
      rcases (isSign_iff.1 (hunary hsign)).2 with hp | hp | hp <;>
        exact .inl ⟨_, by rw [hp]; rfl, rfl⟩
  | @closing c hp hc ht =>
      refine .inr fun d hd => ?_
      rw [text_of_isPunct ht] at hd
      obtain rfl := Option.some.inj hd
      exact List.all_eq_true.1 (rfl : [',', ';', ')', ']'].all isInert = true) c hc
  | @opened c hc hp =>
      refine .inl ⟨c, by rw [text_of_isPunct hp]; rfl, ?_⟩
      exact List.all_eq_true.1 (rfl : ['(', '['].all isInert = true) c hc
  | casting hp =>
      have htext : p.text = [':', ':'] := by simp_all [isCast]
      exact .inl ⟨':', by rw [htext]; rfl, rfl⟩
  | cast hp ht =>
      have htext : t.text = [':', ':'] := by simp_all [isCast]
      refine .inr fun d hd => ?_
      rw [htext] at hd
      obtain rfl := Option.some.inj hd
      rfl
  | point ht hp =>
      refine .inr fun d hd => ?_
      rw [text_of_isPunct ht] at hd
      obtain rfl := Option.some.inj hd
      rfl
  | dotted hp ht =>
      rcases hp with hp | ⟨-, hp⟩
      · exact .inl ⟨'.', by rw [text_of_isPunct hp]; rfl, rfl⟩
      · exact .inl ⟨'.', hp, rfl⟩
  | @call c hc ht hp =>
      refine .inr fun d hd => ?_
      rw [text_of_isPunct ht] at hd
      obtain rfl := Option.some.inj hd
      exact List.all_eq_true.1 (rfl : ['(', '['].all isInert = true) c hc

theorem token_text_of_reads {v : Vocabulary} {k : TokenKind} {u : Text} {n : Nat}
    (h : (token v k u n).isSignificant = true) : (token v k u n).text = u := by
  rw [token_isSignificant] at h
  exact token_text (by rintro rfl; cases h) u n

theorem run_backslashes {style : QuoteStyle} {s s' : Inside} (hs : s ≠ .shielded)
    (h : style.run s [backslash, backslash] = some s') : s' ≠ .shielded := by
  cases s with
  | plain k =>
      rw [QuoteStyle.run_escape] at h
      obtain rfl := Option.some.inj h
      simp
  | shielded => exact absurd rfl hs
  | dollar =>
      obtain rfl : Inside.plain 0 = s' := Option.some.inj h
      simp
  | braced depth =>
      obtain rfl : Inside.braced depth = s' := by
        cases style <;> exact Option.some.inj h
      simp
  | broken =>
      obtain rfl : Inside.broken = s' := Option.some.inj h
      simp

theorem isInert_of_shielded {style : QuoteStyle} {k l : TokenKind} {s : Inside} {u w rest : Text}
    (hu : Reads k u (w ++ rest)) (hk : k ≠ .blank) (hw : Reads l w rest) (hl : l ≠ .blank)
    (hs : s = .shielded → ∀ c ∈ u.head?, isInert c = true)
    (hrun : style.run s u = some .shielded) : ∀ c ∈ w.head?, isInert c = true := by
  obtain ⟨c, r, rfl, hlexeme⟩ := hu
  obtain ⟨d, t, rfl, hnext⟩ := hw
  have hlast := QuoteStyle.getLast?_of_shielded hrun (by simp)
  rcases Reads.of_backslash ⟨c, r, rfl, hlexeme⟩ hk (by simp) hlast with
    ⟨-, hblank⟩ | hpair | ⟨-, hblank⟩
  · intro e he
    obtain rfl := Option.some.inj he
    refine isInert_of_isBlank (hblank d rfl) (Bool.eq_false_iff.2 fun hascii => ?_)
    have hkind : (lexeme d (t ++ rest)).1 = .blank := by simp [lexeme, hascii]
    rw [hnext] at hkind
    exact hl hkind
  · rw [hpair] at hrun hs
    refine absurd rfl (run_backslashes (fun hshielded => ?_) hrun)
    exact absurd (hs hshielded backslash rfl) (by decide)
  · rw [List.cons_append] at hblank
    exact absurd (blankTail_eq_zero (by rwa [hnext])) hblank

section

variable {style : QuoteStyle} {v : Vocabulary}

open QuoteStyle

theorem settle_of_follows {e e' : Placed} {s z : Inside} (h : e.Follows e') (hgap : e'.gap = [])
    (hunary : e.unary = true → isSign e.token = true)
    (hlast : style.run s e.token.text = some z) :
    z.settle = z ∨ ∀ c ∈ e'.token.text.head?, isInert c = true := by
  obtain ⟨parenSpace, hseparated⟩ := h.touching hgap
  rcases isInert_of_touches (touches_of_separated hseparated) hunary with ⟨c, hc, hinert⟩ | hhead
  · exact .inl (settle_of_run hlast hc hinert)
  · exact .inr hhead

theorem isInert_next {k : TokenKind} {u rest : Text} {s : Inside} {m : Nat}
    {before after : List Token} (hu : Reads k u rest) (hk : k ≠ .blank)
    (hrest : tokensFrom v m rest = before ++ after)
    (hs : s = .shielded → ∀ c ∈ u.head?, isInert c = true)
    (hrun : style.run s u = some .shielded) :
    ∀ p ∈ before.head?, p.isSignificant = true → ∀ c ∈ p.text.head?, isInert c = true := by
  intro p hp hsig
  obtain ⟨before, rfl⟩ := List.head?_eq_some_iff.1 hp
  obtain ⟨l, w, rest, rfl, hw, rfl, -⟩ := tokensFrom_eq_cons hrest
  rw [token_text_of_reads hsig]
  rw [token_isSignificant] at hsig
  exact isInert_of_shielded hu hk hw (by rintro rfl; cases hsig) hs hrun

/-- A text and its layout that are read side by side, the text from `s` on and the layout from `s'`
on. Of the text `t` is left, which begins at byte `n` and leads to `x`, and of its tokens `before`
with their places `es`; the tokens `after` are not laid out. `pending` says that a blank of the text
has been read since the last token. -/
structure Trails (style : QuoteStyle) (v : Vocabulary) (x : Inside) (after : List Token)
    (s s' : Inside) (pending : Bool) (n : Nat) (t : Text) (before : List Token)
    (es : List Placed) : Prop where
  tokens : tokensFrom v n t = before ++ after
  placed : es.map Placed.token = before.filter Token.isSignificant
  chain : es.IsChain Placed.Follows
  gaps : ∀ e ∈ es, IsGap e.gap
  unary : ∀ e ∈ es, e.unary = true → isSign e.token = true
  lags : Lags s s'
  gapless : ∀ e ∈ es.head?, e.gap = [] →
    s'.settle = s' ∨ ∀ c ∈ e.token.text.head?, isInert c = true
  shielded : pending = false → s = .shielded → ∀ p ∈ before.head?, p.isSignificant = true →
    ∀ c ∈ p.text.head?, isInert c = true
  run : style.run (if pending then s.settle else s) t = some x

namespace Trails

variable {x s s' : Inside} {pending : Bool} {n : Nat} {t rest u : Text} {k : TokenKind}
  {before after : List Token} {es : List Placed}

theorem blank (h : Trails style v x after s s' pending n (u ++ rest)
      (token v .blank u n :: before) es) (hx : x ≠ .broken) (hreads : Reads .blank u rest)
    (hrest : tokensFrom v (n + u.bytes) rest = before ++ after) :
    Trails style v x after s s' true (n + u.bytes) rest before es := by
  obtain ⟨z, hz, hafter⟩ := exists_of_run_append h.run
  have hsettle : z = s.settle := by
    have hblank := (run_blank hreads _).resolve_right fun hbroken =>
      ne_broken_of_run hafter hx (Option.some.inj (hz.symm.trans hbroken))
    rw [Option.some.inj (hz.symm.trans hblank)]
    split
    · exact settle_settle s
    · rfl
  have hidle : (token v .blank u n).isSignificant = false := by
    rw [token_isSignificant]
    rfl
  have hplaced := h.placed
  rw [List.filter_cons_of_neg (by simp [hidle])] at hplaced
  exact { h with
    tokens := hrest
    placed := hplaced
    shielded := by simp
    run := by rw [if_pos rfl, ← hsettle, hafter] }

theorem token (h : Trails style v x after s s' pending n (u ++ rest) (token v k u n :: before) es)
    (hx : x ≠ .broken) (case : KeywordCase) (hreads : Reads k u rest) (hk : k ≠ .blank)
    (hrest : tokensFrom v (n + u.bytes) rest = before ++ after) :
    ∃ e es' z z', es = e :: es' ∧ style.run s' (e.text case) = some z' ∧
      Trails style v x after z z' false (n + u.bytes) rest before es' := by
  obtain ⟨z, hz, hafter⟩ := exists_of_run_append h.run
  have hsignificant : (Lexer.token v k u n).isSignificant = true := by
    rw [token_isSignificant]
    cases k <;> first | rfl | exact absurd rfl hk
  have htext := token_text_of_reads hsignificant
  have hplaced := h.placed
  rw [List.filter_cons_of_pos hsignificant] at hplaced
  obtain ⟨e, es, rfl, he, hes⟩ := List.map_eq_cons_iff.1 hplaced
  have heu : e.token.text = u := by rw [he, htext]
  have hu : u ≠ [] := by
    obtain ⟨c, r, rfl, -⟩ := hreads
    simp
  obtain ⟨z', hz', hlags⟩ := run_enter h.lags (h.gaps e (by simp)).isAsciiBlank
    (fun hnil => by simpa [heu] using h.gapless e rfl hnil)
    (fun hpending hs => by simpa [htext] using h.shielded hpending hs _ rfl hsignificant) hu hz
    (ne_broken_of_run hafter hx)
  obtain ⟨y, hy, hlast⟩ := exists_of_run_append hz'
  refine ⟨e, es, z, z', rfl, ?_, hrest, hes, h.chain.tail,
    fun e he => h.gaps e (by simp [he]), fun e he => h.unary e (by simp [he]), hlags, ?_, ?_,
    hafter⟩
  · rw [Placed.text, run_append_some hy, run_casedText, heu, hlast]
  · intro e' he' hnil
    obtain ⟨es', rfl⟩ := List.head?_eq_some_iff.1 he'
    exact settle_of_follows (List.isChain_cons_cons.1 h.chain).1 hnil (h.unary e (by simp))
      (heu ▸ hlast)
  · rintro - rfl
    refine isInert_next hreads hk hrest (fun hs => ?_) hz
    cases pending with
    | true => exact absurd hs (settle_ne_shielded s)
    | false => simpa [htext] using h.shielded rfl hs _ rfl hsignificant

end Trails

theorem run_placed (case : KeywordCase) {before after : List Token} {es : List Placed} {n : Nat}
    {t : Text} {s s' x : Inside} {pending : Bool}
    (h : Trails style v x after s s' pending n t before es) (hx : x ≠ .broken) :
    ∃ a rest y y', t = a ++ rest ∧ after = tokensFrom v (n + a.bytes) rest ∧
      style.run s' (es.flatMap (Placed.text case)) = some y' ∧ Lags y y' ∧
      (style.run y rest = some x ∨ style.run y.settle rest = some x) := by
  induction before generalizing es n t s s' pending with
  | nil =>
      obtain rfl : es = [] := by simpa using h.placed
      refine ⟨[], t, s, s', rfl, h.tokens.symm, rfl, h.lags, ?_⟩
      cases pending with
      | false => exact .inl h.run
      | true => exact .inr h.run
  | cons p before ih =>
      obtain ⟨k, u, rest, rfl, hreads, rfl, hrest⟩ := tokensFrom_eq_cons h.tokens
      by_cases hk : k = .blank
      · subst hk
        obtain ⟨a, rest', y, y', rfl, ha, hall⟩ := ih (h.blank hx hreads hrest.symm)
        exact ⟨u ++ a, rest', y, y', by simp, by rw [ha, bytes_append, Nat.add_assoc], hall⟩
      · obtain ⟨e, es, z, z', rfl, hplaced, hnext⟩ := h.token hx case hreads hk hrest.symm
        obtain ⟨a, rest', y, y', rfl, ha, hy', hall⟩ := ih hnext
        refine ⟨u ++ a, rest', y, y', by simp, by rw [ha, bytes_append, Nat.add_assoc], ?_, hall⟩
        rw [List.flatMap_cons, run_append_some hplaced, hy']

end

section

variable {style : QuoteStyle} {v : Vocabulary} (o : LayoutOptions) {x : Inside} {sql : Text}

open QuoteStyle

theorem run_laidOut {before after : List Token} (htokens : v.tokenize sql = before ++ after)
    (hrun : style.run (.plain 0) sql = some x) (hx : x ≠ .broken) :
    ∃ es : List Placed, es.map Placed.token = before.filter Token.isSignificant ∧
      format o before = es.flatMap (Placed.text o.keywordCase) ++
        (if es.any Placed.breaks then ['\n'] else []) ∧
      ∃ a rest y y', sql = a ++ rest ∧ after = tokensFrom v a.bytes rest ∧
        style.run (.plain 0) (es.flatMap (Placed.text o.keywordCase)) = some y' ∧ Lags y y' ∧
        (style.run y rest = some x ∨ style.run y.settle rest = some x) := by
  have hfront : before.filter Token.isSignificant <+:
      (tokensFrom v 0 sql).filter Token.isSignificant := by
    have hall : tokensFrom v 0 sql = before ++ after := htokens
    rw [hall, List.filter_append]
    exact List.prefix_append _ _
  obtain ⟨es, hes, hsequence, hformat⟩ := format_placed o before
    fun t ht => ((legible_of_front hfront).begun t ht).text_ne_nil
  have hunary : ∀ e ∈ es, e.unary = true → isSign e.token = true := by
    refine hsequence.forall_mem (fun e _ he hsign => ?_) (fun p e h hsign => ?_)
    · exact isSign_of_isUnary (he ▸ hsign)
    · exact isSign_of_isUnary (h.unary ▸ hsign)
  have hstart : Trails style v x after (.plain 0) (.plain 0) false 0 sql before es :=
    { tokens := htokens
      placed := hes
      chain := hsequence.chain
      gaps := hsequence.isGap
      unary := hunary
      lags := .refl (.plain 0)
      gapless := fun _ _ _ => .inl rfl
      shielded := by simp
      run := hrun }
  obtain ⟨a, rest, y, y', hsplit, hafter, hy', hlags, hy⟩ := run_placed o.keywordCase hstart hx
  exact ⟨es, hes, hformat, a, rest, y, y', hsplit, by simpa using hafter, hy', hlags, hy⟩

theorem offset_of_tokensFrom {m n : Nat} {s t : Text} (h : tokensFrom v m s = tokensFrom v n t)
    (hs : tokensFrom v m s ≠ []) : m = n := by
  cases s with
  | nil => simp [tokensFrom] at hs
  | cons c s =>
      cases t with
      | nil => simp [tokensFrom] at h
      | cons d t =>
          have hoffset (k : TokenKind) (u : Text) (n : Nat) : (token v k u n).offset = n := by
            rw [token_offset k u 0 n]
          rw [tokensFrom_cons, tokensFrom_cons] at h
          have hhead := congrArg Token.offset (List.cons.inj h).1
          rwa [hoffset, hoffset] at hhead

theorem exists_braced_of_settle {s : Inside} {d : Nat} (h : s.settle = .braced d) :
    ∃ e, s = .braced e := by
  cases s <;> simp_all [settle]

theorem run_formatText_whole {scope : StatementScope}
    (hwhole : scope = .first → firstStatementLength? (v.tokenize sql) = none)
    (hrun : style.run (.plain 0) sql = some x) (hx : x ≠ .broken) :
    ∃ x', style.run (.plain 0) (formatText v o scope sql) = some x' ∧
      ∀ d, x' = .braced d → ∃ e, x = .braced e := by
  have htokens : v.tokenize sql = v.tokenize sql ++ [] := (List.append_nil _).symm
  obtain ⟨es, -, hformat, a, rest, y, y', -, hafter, hy', hlags, hy⟩ :=
    run_laidOut o htokens hrun hx
  rw [(formatText_whole o hwhole).2, hformat, run_append_some hy']
  obtain rfl : rest = [] := by
    cases rest with
    | nil => rfl
    | cons c r => simp [tokensFrom_cons] at hafter
  have hbraced : ∀ d, y' = .braced d → ∃ e, x = .braced e := by
    rintro d rfl
    obtain ⟨e, rfl⟩ := hlags.exists_braced
    rcases hy with hy | hy <;> exact ⟨e, (Option.some.inj hy).symm⟩
  split
  · have hbreak : style.next y' '\n' = some y'.settle ∨ style.next y' '\n' = some .broken :=
      next_blank rfl y'
    rcases hbreak with hbreak | hbreak
    · refine ⟨y'.settle, run_cons_some hbreak [], fun d hd => ?_⟩
      obtain ⟨e, he⟩ := exists_braced_of_settle hd
      exact hbraced e he
    · exact ⟨.broken, run_cons_some hbreak [], by simp⟩
  · exact ⟨y', rfl, hbraced⟩

section Cut

variable {before : List Token} {last : Token} {rest : Text} {es : List Placed}

theorem Cut.rest_eq {a rest' : Text} (hcut : Cut v (a ++ rest') before last rest)
    (hafter : tokensFrom v (last.offset + 1) rest = tokensFrom v a.bytes rest') : rest' = rest := by
  have hbytes := offset_of_tokensFrom hafter fun hnil => by simpa [hnil] using hcut.more
  rw [← hcut.rest, hbytes, dropBytes_append]

theorem Cut.flatMap_placed (hcut : Cut v sql before last rest)
    (hes : es.map Placed.token = (before ++ [last]).filter Token.isSignificant) :
    ∃ w, es.flatMap (Placed.text o.keywordCase) = w ++ [';'] := by
  rw [List.filter_append, List.filter_cons_of_pos hcut.isSignificant, List.filter_nil] at hes
  obtain ⟨es, e, rfl⟩ := (List.eq_nil_or_concat es).resolve_left (by rintro rfl; simp at hes)
  have he : e.token = last := by simpa using congrArg List.getLast? hes
  refine ⟨es.flatMap (Placed.text o.keywordCase) ++ e.gap, ?_⟩
  simp [Placed.text, casedText_punct o.keywordCase (he ▸ hcut.semicolon)]

theorem Cut.trimEndWhile_format (hcut : Cut v sql before last rest)
    (hes : es.map Placed.token = (before ++ [last]).filter Token.isSignificant)
    (hformat : format o (before ++ [last]) = es.flatMap (Placed.text o.keywordCase) ++
      if es.any Placed.breaks then ['\n'] else []) :
    (format o (before ++ [last])).trimEndWhile (· == '\n') =
      es.flatMap (Placed.text o.keywordCase) := by
  obtain ⟨w, hw⟩ := hcut.flatMap_placed o hes
  rw [hformat, hw, List.append_assoc, List.singleton_append, trimEndWhile_append_cons (by decide)]
  congr 2
  split <;> rfl

end Cut

theorem run_formatText_cut {before : List Token} {last : Token} {rest : Text}
    (hcut : Cut v sql before last rest) (hrun : style.run (.plain 0) sql = some x)
    (hx : x ≠ .broken) :
    ∃ x', style.run (.plain 0) (formatText v o .first sql) = some x' ∧ Lags x x' := by
  have htokens : v.tokenize sql = (before ++ [last]) ++ tokensFrom v (last.offset + 1) rest := by
    rw [hcut.tokens]
    simp
  obtain ⟨es, hes, hformat, a, rest', y, y', rfl, hafter, hy', hlags, hy⟩ :=
    run_laidOut o htokens hrun hx
  obtain rfl := hcut.rest_eq hafter
  obtain ⟨w, hw⟩ := hcut.flatMap_placed o hes
  have hsettled : y'.settle = y' := settle_of_run hy' (by rw [hw, List.getLast?_concat]) rfl
  rw [(formatText_cut o hcut).2, hcut.trimEndWhile_format o hes hformat, run_append_some hy']
  rcases hy with hy | hy
  · exact run_lags hlags hy hx
  · exact run_lags (hsettled ▸ hlags.settle) hy hx

theorem run_formatText (scope : StatementScope) (hrun : style.run (.plain 0) sql = some x)
    (hx : x ≠ .broken) : ∃ x', style.run (.plain 0) (formatText v o scope sql) = some x' ∧
      ∀ d, x' = .braced d → ∃ e, x = .braced e := by
  by_cases hwhole : scope = .first → firstStatementLength? (v.tokenize sql) = none
  · exact run_formatText_whole o hwhole hrun hx
  · obtain ⟨rfl, hsome⟩ := Classical.not_imp.1 hwhole
    obtain ⟨n, hn⟩ := Option.ne_none_iff_exists'.1 hsome
    obtain ⟨before, last, rest, hcut⟩ := exists_cut hn
    obtain ⟨x', hx', hlags⟩ := run_formatText_cut o hcut hrun hx
    refine ⟨x', hx', ?_⟩
    rintro d rfl
    exact hlags.exists_braced

end

end EmbeddedSql
