import EmbeddedSql.Proofs.Text.Casing
import EmbeddedSql.Proofs.Token.Reading

namespace EmbeddedSql.Lexer

open Text

variable {v : Vocabulary}

theorem token_text {k : TokenKind} (hk : k ≠ .blank) (s : Text) (n : Nat) :
    (token v k s n).text = s := by
  unfold token
  split
  · exact absurd rfl hk
  · split <;> rfl
  · rfl

theorem token_offset (k : TokenKind) (s : Text) (m n : Nat) :
    token v k s n = { token v k s m with offset := n } := by
  unfold token
  split
  · rfl
  · split <;> rfl
  · rfl

theorem token_isSignificant (k : TokenKind) (s : Text) (n : Nat) :
    (token v k s n).isSignificant = k.isSignificant := by
  unfold token
  split
  · rfl
  · split <;> rfl
  · rfl

def ReadsToken (v : Vocabulary) (t : Token) (rest : Text) : Prop :=
  ∃ k, k ≠ .blank ∧ Reads k t.text rest ∧ token v k t.text t.offset = t

theorem tokensFrom_cons (n : Nat) (c : Char) (r : Text) :
    tokensFrom v n (c :: r) = token v (lexeme c r).1 (c :: r.take (lexeme c r).2) n ::
      tokensFrom v (n + bytes (c :: r.take (lexeme c r).2)) (r.drop (lexeme c r).2) := by
  rw [tokensFrom]

theorem tokensFrom_reads {k : TokenKind} {s rest : Text} (h : Reads k s rest) (n : Nat) :
    tokensFrom v n (s ++ rest) = token v k s n :: tokensFrom v (n + s.bytes) rest := by
  obtain ⟨c, r, rfl, h⟩ := h
  rw [List.cons_append, tokensFrom_cons, h]
  simp only [List.take_left, List.drop_left]

theorem tokensFrom_readsToken {t : Token} {rest : Text} (h : ReadsToken v t rest) (n : Nat) :
    tokensFrom v n (t.text ++ rest) =
      { t with offset := n } :: tokensFrom v (n + t.text.bytes) rest := by
  obtain ⟨k, -, hreads, htoken⟩ := h
  rw [tokensFrom_reads hreads, token_offset k t.text t.offset n, htoken]

theorem tokensFrom_eq_cons {n : Nat} {s : Text} {t : Token} {ts : List Token}
    (h : tokensFrom v n s = t :: ts) :
    ∃ k u rest, s = u ++ rest ∧ Reads k u rest ∧ t = token v k u n ∧
      ts = tokensFrom v (n + u.bytes) rest := by
  cases s with
  | nil => simp [tokensFrom] at h
  | cons c r =>
      rw [tokensFrom_cons] at h
      obtain ⟨ht, hts⟩ := List.cons.inj h
      have hlength : (r.take (lexeme c r).2).length = (lexeme c r).2 :=
        List.length_take_of_le (lexeme_le c r)
      refine ⟨(lexeme c r).1, c :: r.take (lexeme c r).2, r.drop (lexeme c r).2, ?_, ?_, ht.symm,
        hts.symm⟩
      · simp
      · rw [reads_cons, List.take_append_drop, hlength]

theorem tokensFrom_eq_append {n : Nat} {s : Text} {before after : List Token} {t : Token}
    (ht : t.isSignificant = true) (h : tokensFrom v n s = before ++ t :: after) :
    ∃ u rest, s = u ++ t.text ++ rest ∧ t.offset = n + u.bytes ∧ ReadsToken v t rest ∧
      after = tokensFrom v (t.offset + t.text.bytes) rest := by
  induction before generalizing n s with
  | nil =>
      obtain ⟨k, u, rest, hs, hreads, rfl, hafter⟩ := tokensFrom_eq_cons h
      have hk : k ≠ .blank := by
        rintro rfl
        rw [token_isSignificant] at ht
        exact absurd ht (by decide)
      have hoffset : (token v k u n).offset = n := by rw [token_offset k u n n]
      refine ⟨[], rest, ?_, ?_, ⟨k, hk, ?_, ?_⟩, ?_⟩
      · rwa [token_text hk]
      · exact hoffset
      · rwa [token_text hk]
      · rw [token_text hk, hoffset]
      · rwa [token_text hk, hoffset]
  | cons b before ih =>
      obtain ⟨k, u, rest, hs, -, -, hrest⟩ := tokensFrom_eq_cons h
      obtain ⟨u', rest', hs', hoffset, hreads, hafter⟩ := ih hrest.symm
      refine ⟨u ++ u', rest', ?_, ?_, hreads, hafter⟩
      · rw [hs, hs']
        simp
      · rw [hoffset, bytes_append, Nat.add_assoc]

def Closed (v : Vocabulary) (t : Token) : Prop := ∃ rest, rest ≠ [] ∧ ReadsToken v t rest

theorem closed_of_mem_dropLast {n : Nat} {s : Text} {t : Token}
    (ht : t ∈ ((tokensFrom v n s).filter Token.isSignificant).dropLast) : Closed v t := by
  obtain ⟨a, b, hsplit⟩ := List.append_of_mem ht
  obtain ⟨x, hx⟩ : ∃ x, (tokensFrom v n s).filter Token.isSignificant = a ++ t :: (b ++ [x]) := by
    have hne : (tokensFrom v n s).filter Token.isSignificant ≠ [] := by
      intro hnil
      simp [hnil] at ht
    have hlast := List.dropLast_concat_getLast hne
    rw [hsplit, List.append_assoc, List.cons_append] at hlast
    exact ⟨_, hlast.symm⟩
  obtain ⟨before, rest, htokens, -, hrest⟩ := List.filter_eq_append_iff.1 hx
  obtain ⟨blanks, after, hcons, -, hsig, hafter⟩ := List.filter_eq_cons_iff.1 hrest
  rw [hcons, ← List.append_assoc] at htokens
  obtain ⟨-, text, -, -, hreads, htext⟩ := tokensFrom_eq_append hsig htokens
  refine ⟨text, ?_, hreads⟩
  rintro rfl
  simp [htext, tokensFrom] at hafter

theorem closed_of_tokenize {t : Token} {ts : List Token} (ht : t.isSignificant = true)
    (h : v.tokenize (t.text ++ ['\n']) = ⟨t.kind, t.text, 0⟩ :: ts) : Closed v t := by
  obtain ⟨k, u, rest, hsplit, hreads, htoken, -⟩ := tokensFrom_eq_cons h
  have hk : k ≠ .blank := by
    rintro rfl
    have hkind : t.kind = .blank := congrArg Token.kind htoken
    simp [Token.isSignificant, hkind, TokenKind.isSignificant] at ht
  have hu : t.text = u := by
    have := congrArg Token.text htoken
    rwa [token_text hk] at this
  subst hu
  obtain rfl : ['\n'] = rest := List.append_cancel_left hsplit
  refine ⟨['\n'], by simp, k, hk, hreads, ?_⟩
  rw [token_offset k t.text 0 t.offset, ← htoken]

namespace ReadsToken

variable {t : Token} {rest rest' : Text}

theorem text_ne_nil (h : ReadsToken v t rest) : t.text ≠ [] := by
  obtain ⟨k, -, ⟨c, r, htext, -⟩, -⟩ := h
  rw [htext]
  exact List.cons_ne_nil c r

theorem isSignificant (h : ReadsToken v t rest) : t.isSignificant = true := by
  obtain ⟨k, hk, -, htoken⟩ := h
  rw [← htoken, token_isSignificant]
  simpa [TokenKind.isSignificant] using hk

theorem of_reads (hidentifier : t.kind ≠ .identifier) (hblank : t.kind ≠ .blank)
    (h : Reads t.kind t.text rest) : ReadsToken v t rest := by
  refine ⟨t.kind, hblank, h, ?_⟩
  unfold token
  split <;> simp_all

theorem word_or_other (h : ReadsToken v t rest) :
    (Reads .identifier t.text rest ∧ token v .identifier t.text t.offset = t) ∨
      (Reads t.kind t.text rest ∧ t.kind ≠ .identifier ∧ t.kind ≠ .keyword ∧ t.kind ≠ .blank) := by
  obtain ⟨k, hk, hreads, htoken⟩ := h
  by_cases hword : k = .identifier ∨ k = .keyword
  · obtain ⟨c, r, htext, -⟩ := id hreads
    obtain ⟨rfl, -⟩ := Reads.word_initial hword (htext ▸ hreads)
    exact .inl ⟨hreads, htoken⟩
  · obtain ⟨hidentifier, hkeyword⟩ := not_or.1 hword
    have hkind : t.kind = k := by
      rw [← htoken, token]
      · exact hk
      · exact hidentifier
    rw [← hkind] at hreads hidentifier hkeyword hk
    exact .inr ⟨hreads, hidentifier, hkeyword, hk⟩

theorem word_kind (htoken : token v .identifier t.text t.offset = t) :
    t.kind = .identifier ∨ t.kind = .keyword := by
  rw [← htoken, token]
  split
  · exact .inr rfl
  · exact .inl rfl

theorem cased (case : KeywordCase) (hreads : Reads .identifier t.text rest)
    (htoken : token v .identifier t.text t.offset = t)
    (hrest' : ∀ d ∈ rest'.head?, isIdentifierChar d = false) :
    ReadsToken v { t with text := Layout.casedText case t } rest' := by
  obtain ⟨c, r, htext, -⟩ := id hreads
  rw [htext] at hreads
  obtain ⟨-, hc, -⟩ := Reads.word_initial (.inl rfl) hreads
  rcases word_kind htoken with hkind | hkind
  · rw [Layout.casedText_other case (by simp [hkind])]
    exact ⟨.identifier, by simp, htext ▸ hreads.word hrest', htoken⟩
  · rw [Layout.casedText_keyword case hkind]
    refine ⟨.identifier, by simp, ?_, ?_⟩
    · have hc' : isLetter (case.char c) = true ∨ case.char c = '_' := by
        rwa [KeywordCase.isLetter_char, KeywordCase.char_eq_iff case c (by decide)]
      have htail := reads_cons.1 (hreads.word hrest')
      rw [lexeme_word hc] at htail
      have hcons : case.text t.text = case.char c :: case.text r := by rw [htext]; rfl
      rw [hcons, reads_cons, lexeme_word hc', KeywordCase.length_text]
      exact Prod.ext rfl
        ((KeywordCase.identifierTail_text case r rest').trans (congrArg Prod.snd htail))
    · have hsame : token v .identifier (case.text t.text) t.offset =
          { token v .identifier t.text t.offset with text := case.text t.text } := by
        simp only [token, case.contains_text t.text (m := '.') (by decide),
          KeywordCase.reserves_text]
        split <;> rfl
      rw [hsame, htoken]

end ReadsToken

structure Begun (t : Token) : Prop where
  text_ne_nil : t.text ≠ []
  solid : ∀ c ∈ t.text.head?, isAsciiBlank c = false
  operator : ∀ c ∈ t.text.head?, c = '>' ∨ c = '*' → t.kind = .operator
  word : t.kind = .identifier → ∀ c ∈ t.text.head?, c.isDigit = false ∧ isIdentifierChar c = true

theorem ReadsToken.begun {t : Token} {rest : Text} (h : ReadsToken v t rest) : Begun t where
  text_ne_nil := h.text_ne_nil
  solid := by
    obtain ⟨k, hk, ⟨c, r, htext, hlexeme⟩, -⟩ := h
    intro d hd
    obtain rfl : c = d := by simpa [htext] using hd
    rw [Bool.eq_false_iff]
    intro hblank
    rw [lexeme, if_pos hblank] at hlexeme
    exact hk (congrArg Prod.fst hlexeme).symm
  operator := by
    intro c hhead hc
    obtain ⟨r, htext⟩ := List.head?_eq_some_iff.1 hhead
    have hlexeme : lexeme c = fun u => (.operator, operatorTail c u) := by
      rcases hc with rfl | rfl <;> rfl
    rcases h.word_or_other with ⟨hword, -⟩ | ⟨hreads, -⟩
    · rw [htext, reads_cons, hlexeme] at hword
      simp at hword
    · rw [htext, reads_cons, hlexeme] at hreads
      exact (congrArg Prod.fst hreads).symm
  word := by
    intro hkind d hd
    rcases h.word_or_other with ⟨hword, -⟩ | ⟨-, hother, -⟩
    · obtain ⟨c, r, htext, -⟩ := id hword
      rw [htext] at hword
      obtain ⟨-, hc, -⟩ := Reads.word_initial (.inl rfl) hword
      obtain rfl : c = d := by simpa [htext] using hd
      rcases hc with hc | rfl
      · refine ⟨Bool.eq_false_iff.2 fun hdigit => ?_,
          by simp [isIdentifierChar, isAlphanumeric, hc]⟩
        rw [not_isLetter_of_isDigit hdigit] at hc
        simp at hc
      · decide
    · exact absurd hkind hother

theorem Closed.begun {t : Token} (h : Closed v t) : Begun t := by
  obtain ⟨rest, -, hreads⟩ := h
  exact hreads.begun

theorem blankTail_append {g : Text} (hg : ∀ c ∈ g, isAsciiBlank c = true) (s : Text) :
    blankTail (g ++ s) = g.length + blankTail s := by
  induction g with
  | nil => simp
  | cons c g ih =>
      have hc := hg c (by simp)
      have ih := ih fun d hd => hg d (by simp [hd])
      rw [List.cons_append, List.length_cons]
      cases hgs : g ++ s with
      | nil =>
          obtain ⟨rfl, rfl⟩ := List.append_eq_nil_iff.1 hgs
          simp [blankTail, hc]
      | cons d u =>
          rw [blankTail, if_pos hc, ← hgs, ih]
          omega

theorem blankTail_eq_zero {c : Char} {r : Text} (h : (lexeme c r).1 ≠ .blank) :
    blankTail (c :: r) = 0 := by
  have hc : isAsciiBlank c = false := by
    rw [Bool.eq_false_iff]
    intro hc
    simp [lexeme, hc] at h
  cases r with
  | nil => simp [blankTail, hc]
  | cons d r =>
      have hescape : (c == backslash && isBlankEscape d) = false := by
        rw [Bool.eq_false_iff]
        intro hescape
        obtain ⟨hslash, hd⟩ := Bool.and_eq_true_iff.1 hescape
        obtain rfl := beq_iff_eq.1 hslash
        have hlexeme : lexeme backslash (d :: r) = afterBackslash (d :: r) := rfl
        simp [hlexeme, afterBackslash, hd] at h
      simp [blankTail, hc, hescape]

theorem ReadsToken.blankTail_eq_zero {t : Token} {rest : Text} (h : ReadsToken v t rest) :
    blankTail (t.text ++ rest) = 0 := by
  obtain ⟨k, hk, ⟨c, r, htext, hlexeme⟩, -⟩ := h
  rw [htext, List.cons_append]
  exact Lexer.blankTail_eq_zero (by rwa [hlexeme])

theorem reads_blank {c : Char} {g s : Text} (hg : ∀ d ∈ c :: g, isAsciiBlank d = true)
    (hs : blankTail s = 0) : Reads .blank (c :: g) s := by
  rw [reads_cons, lexeme, if_pos (hg c (by simp)),
    blankTail_append (fun d hd => hg d (by simp [hd])) s, hs]
  rfl

def contents (ts : List Token) : List (TokenKind × Text) :=
  (ts.filter Token.isSignificant).map fun t => (t.kind, t.text)

theorem contents_append (ts us : List Token) :
    contents (ts ++ us) = contents ts ++ contents us := by
  simp [contents]

theorem tokensFrom_blanks {g s : Text} (hg : ∀ d ∈ g, isAsciiBlank d = true) (hs : blankTail s = 0)
    (n : Nat) : ∃ blanks, contents blanks = [] ∧
      tokensFrom v n (g ++ s) = blanks ++ tokensFrom v (n + g.bytes) s := by
  cases g with
  | nil => exact ⟨[], rfl, by simp⟩
  | cons c g => exact ⟨[token v .blank (c :: g) n], rfl, tokensFrom_reads (reads_blank hg hs) n⟩

end EmbeddedSql.Lexer
