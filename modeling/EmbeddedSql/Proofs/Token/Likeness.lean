import Mathlib.Data.List.Forall2
import EmbeddedSql.Proofs.Text.Casing

namespace EmbeddedSql.Layout

open Text

theorem isPunct_iff {t : Token} {c : Char} :
    t.isPunct c = true ↔ t.kind = .punctuation ∧ t.text = [c] := by
  simp [Token.isPunct]

theorem isCast_iff {t : Token} : isCast t = true ↔ t.kind = .operator ∧ t.text = [':', ':'] := by
  simp [isCast]

theorem isClosing_iff {t : Token} :
    t.isClosing = true ↔ ∃ c ∈ [')', ']'], t.isPunct c = true := by
  simp [Token.isClosing]

theorem isQuoted_iff {t : Token} : isQuoted t = true ↔
    t.kind = .literal ∧ ∃ c ∈ [singleQuote, doubleQuote, backtick], t.text.head? = some c := by
  cases h : t.text.head? with
  | none => simp [isQuoted, h]
  | some c => simp [isQuoted, h, or_comm, or_left_comm]

def allowsSign : Option Token → Bool
  | none => true
  | some p =>
      match p.kind with
      | .operator => true
      | .punctuation => p.isPunct '(' || p.isPunct ',' || p.isPunct '['
      | .keyword => !isAmongIgnoringCase valueKeywords p.text
      | _ => false

def isSign (t : Token) : Bool :=
  t.kind = .operator && (t.text == ['-'] || t.text == ['+'] || t.text == ['~'])

theorem isSign_iff {t : Token} : isSign t = true ↔
    t.kind = .operator ∧ (t.text = ['-'] ∨ t.text = ['+'] ∨ t.text = ['~']) := by
  simp [isSign, or_assoc]

theorem isUnary_eq (t : Token) (previous : Option Token) :
    isUnary t previous = (isSign t && allowsSign previous) := by
  unfold isUnary isSign allowsSign
  cases previous <;> rfl

structure Twin (case : KeywordCase) (t q : Token) : Prop where
  kind : q.kind = t.kind
  upper : q.text.upper = t.text.upper
  text : t.kind ≠ .keyword → q.text = t.text
  cased : casedText case q = casedText case t

def IsPlain (t : Token) : Prop := t.kind = .identifier ∨ t.kind = .operator

/-- A token `q` that is written as `p` and `u` are, one after the other. `allowed` says that a sign
may stand in the place of `p`. -/
inductive Joined (allowed : Bool) (p u q : Token) : Prop
  | name : p.kind = .identifier → u.kind = .identifier → p.text.getLast? = some '.' →
      u.text ≠ [] → q.kind = .identifier → q.text = p.text ++ u.text → Joined allowed p u q
  | sign : allowed = true → isSign p = true → u.kind = .operator →
      u.text.head? = some '>' ∨ u.text.head? = some '*' →
      q.kind = .operator → q.text = p.text ++ u.text → Joined allowed p u q

inductive Alike (case : KeywordCase) : Bool → List Token → List Token → Prop
  | nil {b : Bool} : Alike case b [] []
  | twin {b : Bool} {t q : Token} {ts qs : List Token} : Twin case t q →
      Alike case (allowsSign (some t)) ts qs → Alike case b (t :: ts) (q :: qs)
  | joined {b : Bool} {p u q : Token} {ts qs : List Token} : Joined b p u q →
      Alike case (allowsSign (some u)) ts qs → Alike case b (p :: u :: ts) (q :: qs)

variable {case : KeywordCase}

def signAfter (allowed : Bool) (ts : List Token) : Bool :=
  ts.foldl (fun _ t => allowsSign (some t)) allowed

inductive TwinFirst (case : KeywordCase) : List Token → List Token → Prop
  | nil : TwinFirst case [] []
  | cons {t q : Token} {ts qs : List Token} : Twin case t q →
      Alike case (allowsSign (some t)) ts qs → TwinFirst case (t :: ts) (q :: qs)

theorem TwinFirst.alike {ts qs : List Token} (h : TwinFirst case ts qs) (b : Bool) :
    Alike case b ts qs := by
  cases h with
  | nil => exact .nil
  | cons ht hts => exact .twin ht hts

structure LikeLast (t q : Token) : Prop where
  kind : q.kind = t.kind
  punct : ∀ c, q.isPunct c = t.isPunct c
  cast : isCast q = isCast t
  quoted : isQuoted q = isQuoted t
  point : t.kind = .identifier → q.text.getLast? = t.text.getLast?
  word : t.kind = .keyword → q.text.lower = t.text.lower

structure LikeNext (t q : Token) : Prop where
  kind : q.kind = t.kind
  punct : ∀ c, q.isPunct c = t.isPunct c
  cast : isCast q = isCast t
  quoted : isQuoted q = isQuoted t
  dash : (q.text.head? == some '-') = (t.text.head? == some '-')
  star : t.kind = .operator → (q.text == ['*']) = (t.text == ['*'])

theorem isAmongIgnoringCase_congr {s t : Text} (h : s.lower = t.lower) (words : List Text) :
    isAmongIgnoringCase words s = isAmongIgnoringCase words t := by
  simp only [isAmongIgnoringCase, equalsIgnoringCase, h]

theorem LikeLast.allowsSign {t q : Token} (h : LikeLast t q) :
    allowsSign (some q) = Layout.allowsSign (some t) := by
  simp only [Layout.allowsSign, h.kind, h.punct]
  cases hkind : t.kind with
  | keyword => simp only [isAmongIgnoringCase_congr (h.word hkind)]
  | _ => rfl

def spacing (unary dash bare closes opened cast point closed dotted named opens apart : Bool) :
    Bool :=
  if unary then dash
  else if bare then true
  else if closes then false
  else if opened then false
  else if cast then false
  else if point then !closed
  else if dotted then !named
  else if opens then apart
  else true

def bracketApart (p : Token) (parenSpace : Bool) : Bool :=
  match p.kind with
  | .identifier => parenSpace
  | .keyword => !isAmongIgnoringCase functionKeywords p.text
  | _ => true

theorem separated_eq (p : Token) (unary parenSpace : Bool) (t : Token) :
    separated p unary parenSpace t = spacing unary (t.text.head? == some '-')
      (p.isPunct backslash) (t.isPunct ',' || t.isPunct ';' || t.isClosing) p.isOpening
      (isCast p || isCast t) (t.isPunct '.') (isQuoted p || p.isClosing)
      (p.isPunct '.' || (p.kind = .identifier && p.text.getLast? == some '.'))
      (t.kind = .identifier || isQuoted t || (t.kind = .operator && t.text == ['*']))
      t.isOpening (bracketApart p parenSpace) := rfl

theorem separated_congr {p p' t t' : Token} (hp : LikeLast p p') (ht : LikeNext t t')
    (unary parenSpace : Bool) :
    separated p' unary parenSpace t' = separated p unary parenSpace t := by
  have hdot : (decide (p'.kind = .identifier) && p'.text.getLast? == some '.') =
      (decide (p.kind = .identifier) && p.text.getLast? == some '.') := by
    rw [hp.kind]
    by_cases hkind : p.kind = .identifier
    · rw [hp.point hkind]
    · simp [hkind]
  have hstar : (decide (t'.kind = .operator) && t'.text == ['*']) =
      (decide (t.kind = .operator) && t.text == ['*']) := by
    rw [ht.kind]
    by_cases hkind : t.kind = .operator
    · rw [ht.star hkind]
    · simp [hkind]
  have hbracket : bracketApart p' parenSpace = bracketApart p parenSpace := by
    unfold bracketApart
    rw [hp.kind]
    cases hkind : p.kind with
    | keyword => simp only [isAmongIgnoringCase_congr (hp.word hkind)]
    | _ => rfl
  have hname : decide (t'.kind = .identifier) = decide (t.kind = .identifier) := by rw [ht.kind]
  rw [separated_eq, separated_eq, hdot, hstar, hbracket, hname, Token.isClosing, Token.isOpening,
    Token.isClosing, Token.isOpening, ht.dash, ht.cast, ht.quoted, hp.cast, hp.quoted, hp.punct,
    hp.punct, hp.punct, hp.punct, hp.punct, hp.punct, ht.punct, ht.punct, ht.punct, ht.punct,
    ht.punct, ht.punct, ht.punct]
  rfl

namespace Twin

variable {t q : Token}

theorem refl (t : Token) : Twin case t t := ⟨rfl, rfl, fun _ => rfl, rfl⟩

section

variable (h : Twin case t q)

include h

theorem lower : q.text.lower = t.text.lower := by
  have hlower (s : Text) : s.lower = s.upper.lower := by
    simp [Text.lower, Text.upper, Function.comp_def, toLower_toUpper]
  rw [hlower q.text, h.upper, ← hlower]

theorem isPunct (c : Char) : q.isPunct c = t.isPunct c := by
  unfold Token.isPunct
  rw [h.kind]
  by_cases hkind : t.kind = .punctuation
  · rw [h.text (by simp [hkind])]
  · simp [hkind]

theorem isKeyword : q.isKeyword = t.isKeyword := by
  rw [Token.isKeyword, Token.isKeyword, h.kind]

theorem isKeywordNamed (word : Text) : q.isKeywordNamed word = t.isKeywordNamed word := by
  rw [Token.isKeywordNamed, Token.isKeywordNamed, h.isKeyword, equalsIgnoringCase,
    equalsIgnoringCase, h.lower]

theorem isKeywordAmong (words : List Text) : q.isKeywordAmong words = t.isKeywordAmong words := by
  have hnamed : q.isKeywordNamed = t.isKeywordNamed := funext h.isKeywordNamed
  rw [Token.isKeywordAmong, Token.isKeywordAmong, hnamed]

theorem isLineComment : q.isLineComment = t.isLineComment := by
  unfold Token.isLineComment
  rw [h.kind]
  by_cases hkind : t.kind = .comment
  · rw [h.text (by simp [hkind])]
  · simp [hkind]

theorem isOpening : q.isOpening = t.isOpening := by
  rw [Token.isOpening, Token.isOpening, h.isPunct, h.isPunct]

theorem isClosing : q.isClosing = t.isClosing := by
  rw [Token.isClosing, Token.isClosing, h.isPunct, h.isPunct]

theorem depthAfter (depth : Nat) : Token.depthAfter depth q = Token.depthAfter depth t := by
  rw [Token.depthAfter, Token.depthAfter, h.isOpening, h.isClosing]

theorem contains_newline : List.contains q.text '\n' = List.contains t.text '\n' := by
  have hupper (s : Text) : List.contains s '\n' = List.contains s.upper '\n' :=
    (KeywordCase.contains_text .upper s (by decide)).symm
  rw [hupper q.text, h.upper, ← hupper]

theorem forcesBreak : q.forcesBreak = t.forcesBreak := by
  rw [Token.forcesBreak, Token.forcesBreak, h.isLineComment, h.contains_newline]

theorem length : q.text.length = t.text.length := by
  have hupper (s : Text) : s.length = s.upper.length := by simp [Text.upper]
  rw [hupper q.text, h.upper, ← hupper]

theorem isSign : isSign q = Layout.isSign t := by
  unfold Layout.isSign
  rw [h.kind]
  by_cases hkind : t.kind = .operator
  · rw [h.text (by simp [hkind])]
  · simp [hkind]

theorem isCast : isCast q = Layout.isCast t := by
  unfold Layout.isCast
  rw [h.kind]
  by_cases hkind : t.kind = .operator
  · rw [h.text (by simp [hkind])]
  · simp [hkind]

theorem isQuoted : isQuoted q = Layout.isQuoted t := by
  unfold Layout.isQuoted
  rw [h.kind]
  by_cases hkind : t.kind = .literal
  · rw [h.text (by simp [hkind])]
  · simp [hkind]

theorem likeLast : LikeLast t q where
  kind := h.kind
  punct := h.isPunct
  cast := h.isCast
  quoted := h.isQuoted
  point hkind := by rw [h.text (by simp [hkind])]
  word _ := h.lower

theorem likeNext : LikeNext t q where
  kind := h.kind
  punct := h.isPunct
  cast := h.isCast
  quoted := h.isQuoted
  dash := by
    rw [Bool.eq_iff_iff, beq_iff_eq, beq_iff_eq, ← head?_casedText case q (by decide), h.cased,
      head?_casedText case t (by decide)]
  star hkind := by rw [h.text (by simp [hkind])]

end

end Twin

namespace IsPlain

variable {t : Token} (h : IsPlain t)

include h

theorem isPunct (c : Char) : t.isPunct c = false := by
  rcases h with hkind | hkind <;> simp [Token.isPunct, hkind]

theorem isKeyword : t.isKeyword = false := by
  rcases h with hkind | hkind <;> simp [Token.isKeyword, hkind]

theorem isKeywordNamed (word : Text) : t.isKeywordNamed word = false := by
  simp [Token.isKeywordNamed, h.isKeyword]

theorem isKeywordAmong (words : List Text) : t.isKeywordAmong words = false := by
  simp [Token.isKeywordAmong, h.isKeywordNamed]

theorem isLineComment : t.isLineComment = false := by
  rcases h with hkind | hkind <;> simp [Token.isLineComment, hkind]

theorem isOpening : t.isOpening = false := by simp [Token.isOpening, h.isPunct]

theorem isClosing : t.isClosing = false := by simp [Token.isClosing, h.isPunct]

theorem depthAfter (depth : Nat) : Token.depthAfter depth t = depth := by
  simp [Token.depthAfter, h.isOpening, h.isClosing]

theorem kind_ne_comment : t.kind ≠ .comment := by
  rcases h with hkind | hkind <;> simp [hkind]

theorem isQuoted : isQuoted t = false := by
  rcases h with hkind | hkind <;> simp [Layout.isQuoted, hkind]

theorem forcesBreak : t.forcesBreak = List.contains t.text '\n' := by
  simp [Token.forcesBreak, h.isLineComment]

theorem casedText (case : KeywordCase) : casedText case t = t.text :=
  casedText_other case (by rcases h with hkind | hkind <;> simp [hkind])

end IsPlain

namespace Joined

variable {b : Bool} {p u q : Token} (h : Joined b p u q)

include h

theorem plain : IsPlain p ∧ IsPlain u ∧ IsPlain q := by
  cases h with
  | name hp hu _ _ hq _ => exact ⟨.inl hp, .inl hu, .inl hq⟩
  | sign _ hp hu _ hq _ => exact ⟨.inr (isSign_iff.1 hp).1, .inr hu, .inr hq⟩

theorem text : q.text = p.text ++ u.text := by
  cases h with
  | name _ _ _ _ _ hq => exact hq
  | sign _ _ _ _ _ hq => exact hq

theorem text_ne_nil : p.text ≠ [] := by
  cases h with
  | name _ _ hlast _ _ _ =>
      rintro hnil
      simp [hnil] at hlast
  | sign _ hp _ _ _ _ => rcases (isSign_iff.1 hp).2 with hp | hp | hp <;> simp [hp]

theorem isSign_whole : isSign q = false := by
  cases h with
  | name _ _ _ _ hq _ => simp [isSign, hq]
  | sign _ hp _ hu _ hq =>
      have hne : u.text ≠ [] := by
        rintro hnil
        simp [hnil] at hu
      rcases (isSign_iff.1 hp).2 with hp | hp | hp <;> simp [isSign, hq, hp, hne]

theorem isSign_second : isSign u = false := by
  cases h with
  | name _ hu _ _ _ _ => simp [isSign, hu]
  | sign _ _ _ hu _ _ =>
      rw [Bool.eq_false_iff]
      intro hsign
      rcases (isSign_iff.1 hsign).2 with hs | hs | hs <;> simp [hs] at hu

theorem isCast_eq_false : isCast p = false ∧ isCast u = false ∧ isCast q = false := by
  cases h with
  | name hp hu _ _ hq _ => simp [isCast, hp, hu, hq]
  | sign _ hp _ hu _ hq =>
      have hcast : isCast u = false := by
        rw [Bool.eq_false_iff]
        intro hcast
        have htext : u.text = [':', ':'] := by simp_all [isCast]
        simp [htext] at hu
      rcases (isSign_iff.1 hp).2 with hp | hp | hp <;> simp [isCast, hq, hp] at hcast ⊢ <;>
        exact hcast

theorem likeNext : LikeNext p q where
  kind := by
    cases h with
    | name hp _ _ _ hq _ => rw [hp, hq]
    | sign _ hp _ _ hq _ => rw [(isSign_iff.1 hp).1, hq]
  punct c := by rw [h.plain.1.isPunct, h.plain.2.2.isPunct]
  cast := by rw [h.isCast_eq_false.1, h.isCast_eq_false.2.2]
  quoted := by rw [h.plain.1.isQuoted, h.plain.2.2.isQuoted]
  dash := by rw [h.text, List.head?_append_of_ne_nil _ h.text_ne_nil]
  star hkind := by
    cases h with
    | name hp _ _ _ _ _ => simp [hp] at hkind
    | sign _ hp _ _ _ hq => rcases (isSign_iff.1 hp).2 with hp | hp | hp <;> simp [hq, hp]

theorem likeLast : LikeLast u q where
  kind := by
    cases h with
    | name _ hu _ _ hq _ => rw [hu, hq]
    | sign _ _ hu _ hq _ => rw [hu, hq]
  punct c := by rw [h.plain.2.1.isPunct, h.plain.2.2.isPunct]
  cast := by rw [h.isCast_eq_false.2.1, h.isCast_eq_false.2.2]
  quoted := by rw [h.plain.2.1.isQuoted, h.plain.2.2.isQuoted]
  point hkind := by
    cases h with
    | name _ _ _ hne _ hq => rw [hq, List.getLast?_append_of_ne_nil _ hne]
    | sign _ _ hu _ _ _ => simp [hu] at hkind
  word hkind := by
    have := h.plain.2.1.isKeyword
    simp [Token.isKeyword, hkind] at this

theorem touches (parenSpace : Bool) : separated p (isSign p && b) parenSpace u = false := by
  cases h with
  | name hp hu hlast _ hq htext =>
      have hsign : isSign p = false := by simp [isSign, hp]
      have hplain : IsPlain p := .inl hp
      have hplain' : IsPlain u := .inl hu
      rw [separated_eq]
      simp [spacing, hsign, hplain.isPunct, hplain'.isPunct, hplain'.isClosing, hplain.isOpening,
        hp, hu, hlast, isCast]
  | sign hb hp hu hhead hq htext =>
      rw [separated_eq]
      rcases hhead with hhead | hhead <;> simp [spacing, hb, hp, hhead]

theorem forcesBreak : q.forcesBreak = (p.forcesBreak || u.forcesBreak) := by
  obtain ⟨hp, hu, hq⟩ := h.plain
  rw [hp.forcesBreak, hu.forcesBreak, hq.forcesBreak, h.text]
  simp

theorem casedText (case : KeywordCase) :
    casedText case q = Layout.casedText case p ++ Layout.casedText case u := by
  obtain ⟨hp, hu, hq⟩ := h.plain
  rw [hp.casedText, hu.casedText, hq.casedText, h.text]

end Joined

namespace Alike

variable {b : Bool} {ts qs : List Token}

theorem refl (b : Bool) (ts : List Token) : Alike case b ts ts := by
  induction ts generalizing b with
  | nil => exact .nil
  | cons t ts ih => exact .twin (.refl t) (ih _)

theorem fresh (h : Alike case b ts qs) : Alike case true ts qs := by
  cases h with
  | nil => exact .nil
  | twin ht hts => exact .twin ht hts
  | joined hj hts =>
      refine .joined ?_ hts
      cases hj with
      | name hp hu hlast hne hq htext => exact .name hp hu hlast hne hq htext
      | sign _ hp hu hhead hq htext => exact .sign rfl hp hu hhead hq htext

theorem append_twins {hs ks : List Token} (hhead : List.Forall₂ (Twin case) hs ks)
    (h : Alike case (signAfter b hs) ts qs) : Alike case b (hs ++ ts) (ks ++ qs) := by
  induction hhead generalizing b with
  | nil => exact h
  | cons ht _ ih => exact .twin ht (ih h)

theorem any_forcesBreak (h : Alike case b ts qs) :
    qs.any Token.forcesBreak = ts.any Token.forcesBreak := by
  induction h with
  | nil => rfl
  | twin ht _ ih => rw [List.any_cons, List.any_cons, ht.forcesBreak, ih]
  | joined hj _ ih =>
      rw [List.any_cons, List.any_cons, List.any_cons, hj.forcesBreak, ih, Bool.or_assoc]

theorem length_le (h : Alike case b ts qs) : qs.length ≤ ts.length := by
  induction h with
  | nil => exact Nat.le_refl _
  | twin _ _ ih => simpa using ih
  | joined _ _ ih =>
      simp only [List.length_cons]
      omega

theorem getLast?_isLineComment (h : Alike case b ts qs) :
    qs.getLast?.any Token.isLineComment = ts.getLast?.any Token.isLineComment := by
  have hdefault : ∀ {d d' : Token}, d'.isLineComment = d.isLineComment →
      (qs.getLast?.getD d').isLineComment = (ts.getLast?.getD d).isLineComment := by
    induction h with
    | nil => exact fun hd => hd
    | twin ht _ ih =>
        intro d d' _
        simpa [List.getLast?_cons] using ih ht.isLineComment
    | joined hj _ ih =>
        intro d d' _
        have hlast := hj.plain.2.2.isLineComment.trans hj.plain.2.1.isLineComment.symm
        simpa [List.getLast?_cons] using ih hlast
  have hany (x : Option Token) :
      x.any Token.isLineComment = (x.getD ⟨.blank, [], 0⟩).isLineComment := by
    cases x <;> rfl
  rw [hany, hany]
  exact hdefault rfl

end Alike

end EmbeddedSql.Layout
