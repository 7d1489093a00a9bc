import EmbeddedSql.Proofs.Token.Tiling

namespace EmbeddedSql

open Text Lexer

namespace Text

def shieldedFrom : (shielded : Bool) → Text → List Char
  | _, [] => []
  | true, c :: r => c :: shieldedFrom false r
  | false, c :: r => shieldedFrom (c == backslash) r

def escapes (t : Text) : List Char := (shieldedFrom false t).filter fun c => !isBlankEscape c

def shieldsFrom (shielded : Bool) (t : Text) : Bool :=
  t.foldl (fun shielded c => !shielded && c == backslash) shielded

def endsUnpaired (t : Text) : Bool := shieldsFrom false t

/-- The escaped characters of a text with all blanks alike; the end of the text counts as one. -/
def escapesUpToBlanks (t : Text) : List Char :=
  (escapes (t ++ [' '])).map fun c => if isBlank c then ' ' else c

theorem shieldedFrom_append (b : Bool) (s t : Text) :
    shieldedFrom b (s ++ t) = shieldedFrom b s ++ shieldedFrom (shieldsFrom b s) t := by
  induction s generalizing b with
  | nil => cases b <;> rfl
  | cons c s ih =>
      cases b with
      | true => exact congrArg (c :: ·) (ih false)
      | false => exact ih (c == backslash)

theorem shieldsFrom_append (b : Bool) (s t : Text) :
    shieldsFrom b (s ++ t) = shieldsFrom (shieldsFrom b s) t :=
  List.foldl_append

theorem shieldedFrom_blank {d : Char} (hd : isBlank d = true) (r : Text) :
    shieldedFrom true (d :: r) = d :: shieldedFrom false (d :: r) ∧ isBlankEscape d = false := by
  have hslash : (d == backslash) = false := by
    rw [beq_eq_false_iff_ne]
    rintro rfl
    exact absurd hd (by decide)
  constructor
  · rw [shieldedFrom, shieldedFrom, hslash]
  · refine Bool.eq_false_iff.2 fun hescape => ?_
    simp only [isBlankEscape, Bool.or_eq_true, beq_iff_eq] at hescape
    rcases hescape with (rfl | rfl) | rfl <;> exact absurd hd (by decide)

theorem escapesUpToBlanks_append {s t : Text}
    (h : endsUnpaired s = true → ∀ c ∈ t.head?, isBlank c = true) :
    escapesUpToBlanks (s ++ t) = escapesUpToBlanks s ++ escapesUpToBlanks t := by
  simp only [escapesUpToBlanks, escapes, List.append_assoc, shieldedFrom_append false s,
    List.filter_append, List.map_append]
  rw [List.append_cancel_left_eq]
  rw [endsUnpaired] at h
  cases hs : shieldsFrom false s with
  | false => rfl
  | true =>
      cases t with
      | nil => rfl
      | cons d r =>
          have hd : isBlank d = true := h hs d rfl
          obtain ⟨hfirst, hescape⟩ := shieldedFrom_blank hd (r ++ [' '])
          rw [List.cons_append, hfirst, List.filter_cons_of_pos (by simp [hescape]), List.map_cons,
            if_pos hd]
          rfl

theorem endsUnpaired_append {s : Text} (hs : endsUnpaired s = false) (t : Text) :
    endsUnpaired (s ++ t) = endsUnpaired t := by
  rw [endsUnpaired, endsUnpaired, shieldsFrom_append, show shieldsFrom false s = false from hs]

theorem getLast?_of_endsUnpaired {t : Text} (h : endsUnpaired t = true) :
    t.getLast? = some backslash := by
  rcases List.eq_nil_or_concat t with rfl | ⟨s, c, rfl⟩
  · cases h
  · rw [List.concat_eq_append, endsUnpaired, shieldsFrom_append] at h
    have hc : c = backslash := by simpa using (Bool.and_eq_true_iff.1 h).2
    rw [List.concat_eq_append, hc, List.getLast?_concat]

theorem escapesUpToBlanks_cons {c : Char} (hc : c ≠ backslash) (t : Text) :
    endsUnpaired (c :: t) = endsUnpaired t ∧ escapesUpToBlanks (c :: t) = escapesUpToBlanks t := by
  have hslash : (c == backslash) = false := beq_eq_false_iff_ne.2 hc
  constructor
  · rw [endsUnpaired, shieldsFrom, List.foldl_cons, hslash]
    rfl
  · rw [escapesUpToBlanks, escapes, List.cons_append, shieldedFrom, hslash]
    rfl

theorem escapesUpToBlanks_plain {t : Text} (h : backslash ∉ t) :
    endsUnpaired t = false ∧ escapesUpToBlanks t = [] := by
  induction t with
  | nil => exact ⟨rfl, rfl⟩
  | cons c t ih =>
      obtain ⟨hc, ht⟩ := not_or.1 (List.mem_cons.not.1 h)
      rw [(escapesUpToBlanks_cons (Ne.symm hc) t).1, (escapesUpToBlanks_cons (Ne.symm hc) t).2]
      exact ih ht

end Text

namespace Lexer

theorem BlankRun.escapesUpToBlanks {t : Text} (h : BlankRun t) :
    endsUnpaired t = false ∧ escapesUpToBlanks t = [] := by
  induction h with
  | nil => exact ⟨rfl, rfl⟩
  | @blank c r hc _ ih =>
      have hslash : c ≠ backslash := by
        rintro rfl
        exact absurd hc (by decide)
      rw [(escapesUpToBlanks_cons hslash r).1, (escapesUpToBlanks_cons hslash r).2]
      exact ih
  | @escape c r hc _ ih =>
      have hpair : endsUnpaired [backslash, c] = false := rfl
      have hnone : Text.escapesUpToBlanks [backslash, c] = [] := by
        simp [Text.escapesUpToBlanks, escapes, shieldedFrom, hc]
      have hcut := escapesUpToBlanks_append (s := [backslash, c]) (t := r) (by simp [hpair])
      rw [hnone, ih.2, List.nil_append] at hcut
      exact ⟨(endsUnpaired_append hpair r).trans ih.1, hcut⟩

theorem Reads.blankRun {u rest : Text} (h : Reads .blank u rest) : BlankRun u := by
  obtain ⟨c, r, rfl, h⟩ := h
  have hrun := blankRun_of_lexeme (c := c) (r := r ++ rest) (by rw [h])
  rwa [h, List.take_left' rfl] at hrun

theorem Reads.of_endsUnpaired {k : TokenKind} {u rest : Text} (h : Reads k u rest)
    (hk : k ≠ .blank) (hrest : rest ≠ []) (hu : endsUnpaired u = true) :
    (k = .punctuation ∧ u = [backslash] ∧ ∀ d ∈ rest.head?, isBlank d = true) ∨
      k = .comment ∧ startsWith u ['-', '-'] = true ∧
        (rest.head? ≠ some backslash → ∀ d ∈ rest.head?, isBlank d = true) := by
  rcases h.of_backslash hk hrest (getLast?_of_endsUnpaired hu) with ⟨rfl, hblank⟩ | rfl | ⟨hc, ht⟩
  · exact .inl ⟨h.kind_of_backslash, rfl, hblank⟩
  · cases hu
  · refine .inr ⟨hc.1, hc.2, fun hslash d hd => ?_⟩
    obtain ⟨r, rfl⟩ := List.head?_eq_some_iff.1 hd
    refine isBlank_of_isAsciiBlank ?_
    have hne : d ≠ backslash := by simpa using hslash
    by_contra hascii
    rw [Bool.not_eq_true] at hascii
    cases r <;> simp [blankTail, hascii, hne] at ht

section

variable {v : Vocabulary}

theorem forall_isIdentifierChar_of_keyword {n : Nat} {t : Text} :
    ∀ x ∈ tokensFrom v n t, x.kind = .keyword → ∀ c ∈ x.text, isIdentifierChar c = true := by
  induction htokens : tokensFrom v n t generalizing n t with
  | nil => simp
  | cons x ts ih =>
      obtain ⟨k, u, rest, rfl, hreads, rfl, hrest⟩ := tokensFrom_eq_cons htokens
      rw [List.forall_mem_cons]
      refine ⟨fun hkind => ?_, ih hrest.symm⟩
      obtain ⟨c, r, rfl, -⟩ := id hreads
      have hk : k = .identifier ∨ k = .keyword := by
        cases k <;> simp_all [token]
      obtain ⟨rfl, -, -⟩ := Reads.word_initial hk hreads
      rw [token_text (by simp)]
      exact hreads.forall_isIdentifierChar

theorem endsUnpaired_tokensFrom {n : Nat} {t : Text} :
    (tokensFrom v n t).Pairwise fun x _ => x.isSignificant = true → endsUnpaired x.text = true →
      x.isPunct backslash = true ∨ x.isLineComment = true := by
  induction htokens : tokensFrom v n t generalizing n t with
  | nil => exact .nil
  | cons x ts ih =>
      obtain ⟨k, u, rest, rfl, hreads, rfl, hrest⟩ := tokensFrom_eq_cons htokens
      refine .cons (fun y hy hsig hu => ?_) (ih hrest.symm)
      have hne : rest ≠ [] := by
        rintro rfl
        rw [hrest, tokensFrom] at hy
        cases hy
      rw [token_isSignificant] at hsig
      have hk : k ≠ .blank := by
        rintro rfl
        cases hsig
      rw [token_text hk] at hu
      rcases hreads.of_endsUnpaired hk hne hu with ⟨rfl, rfl, -⟩ | ⟨rfl, hdash, -⟩
      · exact .inl rfl
      · exact .inr (by simpa [Token.isLineComment, token] using hdash)

end

end Lexer

end EmbeddedSql
