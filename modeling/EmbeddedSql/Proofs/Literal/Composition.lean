import EmbeddedSql.Proofs.Literal.Content

namespace EmbeddedSql

open Text Scan

inductive Piece where
  | code (text : Text)
  | lineComment (text : Text)
  | blockComment (text : Text)
  | literal (style : QuoteStyle) (content : Text)
  deriving DecidableEq, Repr

namespace HostLanguage

def styles : HostLanguage → List QuoteStyle
  | .python => [.single, .double, .tripleSingle, .tripleDouble]
  | .javaScript => [.single, .double, .template]

def commentMark : HostLanguage → Text
  | .python => ['#']
  | .javaScript => ['/', '/']

def isCode : HostLanguage → Char → Bool
  | .python, c => !isQuote c && c ≠ '#'
  | .javaScript, c => !isQuote c && c ≠ backtick && c ≠ '/'

def depthAfter : HostLanguage → Nat → Char → Nat
  | .python, depth, c =>
      if c == '(' || c == '[' || c == openBrace then depth + 1
      else if c == ')' || c == ']' || c == closeBrace then depth - 1
      else depth
  | .javaScript, depth, _ => depth

end HostLanguage

namespace Piece

variable (language : HostLanguage)

def text : Piece → Text
  | .code t => t
  | .lineComment t => language.commentMark ++ t
  | .blockComment t => '/' :: '*' :: (t ++ ['*', '/'])
  | .literal style t => style.delimiter ++ (t ++ style.delimiter)

def source (ps : List Piece) : Text := ps.flatMap (text language)

def Fits (after : Text) : Piece → Prop
  | .code t => ∀ c ∈ t, language.isCode c = true
  | .lineComment t => '\n' ∉ t ∧ ∀ c ∈ after.head?, c = '\n'
  | .blockComment t => language = .javaScript ∧ occursIn ['*', '/'] t = false
  | .literal style t => style ∈ language.styles ∧ style.IsContent t ∧
      (language = .python → style.isTriple = false → t = [] → after.head? ≠ some style.quote)

instance (after : Text) : (x : Piece) → Decidable (x.Fits language after)
  | .code t => List.decidableBAll (fun c => language.isCode c = true) t
  | .lineComment t =>
      have := Option.decidableForallMem (p := fun c => c = '\n') after.head?
      inferInstanceAs (Decidable ('\n' ∉ t ∧ ∀ c ∈ after.head?, c = '\n'))
  | .blockComment _ => inferInstanceAs (Decidable (_ ∧ _))
  | .literal _ _ => inferInstanceAs (Decidable (_ ∧ _))

def Composed : List Piece → Prop
  | [] => True
  | x :: ps => x.Fits language (source language ps) ∧ Composed ps

instance decidableComposed : (ps : List Piece) → Decidable (Composed language ps)
  | [] => .isTrue trivial
  | _ :: ps =>
      have := decidableComposed ps
      inferInstanceAs (Decidable (_ ∧ _))

end Piece

namespace Scan.Place

def word (p : Place) : Text := (p.back.takeWhile isWordChar).reverse

def mark (p : Place) : Text := if stringMarks.contains (lower p.word) then p.word else []

def byteMarks : List Text := ["b", "br", "rb"].map String.toList

def passesOver (language : HostLanguage) (p : Place) : Bool :=
  language = .python && (byteMarks.contains (lower p.word) ||
    isStatement { p with back := p.back.drop p.mark.length })

def after (language : HostLanguage) (p : Place) (x : Piece) : Place :=
  p.advance (x.text language) <| match x with
    | .code t => t.foldl language.depthAfter p.depth
    | _ => p.depth

end Scan.Place

def Occurrence.extent (o : Occurrence) : QuoteStyle × Text × Nat × Nat :=
  (o.style, o.text, o.start, o.stop)

namespace Piece

def found (language : HostLanguage) (p : Place) : Piece → List (QuoteStyle × Text × Nat × Nat)
  | .literal style t =>
      if p.passesOver language then []
      else
        let start := p.offset + style.delimiter.bytes
        [(style, t, start, start + t.bytes)]
  | _ => []

def literals (language : HostLanguage) (p : Place) :
    List Piece → List (QuoteStyle × Text × Nat × Nat)
  | [] => []
  | x :: ps => x.found language p ++ literals language (p.after language x) ps

end Piece

namespace Scan

section Advance

variable {language : HostLanguage} {p : Place}

theorem Place.advance_nil (p : Place) : p.advance [] p.depth = p := rfl

theorem Place.advance_advance (p : Place) (s t : Text) (m n : Nat) :
    (p.advance s m).advance t n = p.advance (s ++ t) n := by
  simp [advance, Nat.add_assoc]

theorem Place.after_append (p : Place) (s t : Text) :
    p.after language (.code (s ++ t)) = (p.after language (.code s)).after language (.code t) := by
  simp only [after, Piece.text, advance_advance, List.foldl_append]
  rfl

theorem steps_eq {step : Place → Char → Text → Step} {c : Char} {r piece z : Text} {s : Step}
    (hstep : step p c r = s) (h : c :: r = piece ++ z) (hlength : piece.length = s.length + 1) :
    steps step p (c :: r) = s.found.toList ++ steps step (p.advance piece s.depth) z := by
  obtain ⟨htake, hdrop⟩ := split_cons h hlength
  rw [steps, hstep, htake, hdrop]

end Advance

section Word

variable {p : Place}

theorem Place.word_eq_nil (h : ∀ c ∈ p.back.head?, isWordChar c = false) : p.word = [] := by
  unfold word
  cases hback : p.back with
  | nil => rfl
  | cons c back => simp [h c (by rw [hback]; rfl)]

theorem Place.word_advance (h : p.word = []) {w : Text} (hw : ∀ c ∈ w, isWordChar c = true)
    (depth : Nat) : (p.advance w depth).word = w := by
  have hback : p.back.takeWhile isWordChar = [] := List.reverse_eq_nil_iff.1 h
  have hall : ∀ c ∈ w.reverse, isWordChar c = true := fun c hc => hw c (List.mem_reverse.1 hc)
  rw [word, advance, List.takeWhile_append_of_pos hall, hback, List.append_nil,
    List.reverse_reverse]

theorem toLower_eq_b (c : Char) : c.toLower = 'b' ↔ c = 'b' ∨ c = 'B' := by
  refine forall_char (P := fun c => c.toLower = 'b' ↔ c = 'b' ∨ c = 'B') ?_ (fun c hc => ?_) c
  · decide +kernel
  · have hupper : c ≠ 'B' := by
      rintro rfl
      cases hc
    simp [toLower_of_not_isAscii hc, hupper]

theorem contains_byteMarks {w : Text} (h : stringMarks.contains (lower w) = true) :
    Place.byteMarks.contains (lower w) = (List.contains w 'b' || List.contains w 'B') := by
  have hletter : (List.contains w 'b' || List.contains w 'B') = List.contains (lower w) 'b' := by
    rw [Bool.eq_iff_iff]
    simp only [Bool.or_eq_true, List.contains_iff_mem, lower, List.mem_map, toLower_eq_b]
    constructor
    · rintro (hb | hb)
      · exact ⟨_, hb, .inl rfl⟩
      · exact ⟨_, hb, .inr rfl⟩
    · rintro ⟨c, hc, rfl | rfl⟩
      · exact .inl hc
      · exact .inr hc
  have hmarks : ∀ m ∈ stringMarks, Place.byteMarks.contains m = List.contains m 'b' := by
    decide
  rw [hletter]
  exact hmarks _ (List.contains_iff_mem.1 h)

theorem passesOver_of_mark {w : Text} (h : stringMarks.contains (lower w) = true)
    (hword : (p.advance w p.depth).word = w) :
    (p.advance w p.depth).passesOver .python = skips .python p w := by
  have hmark : (p.advance w p.depth).mark = w := by rw [Place.mark, hword, if_pos h]
  have hlength : w.length = w.reverse.length := List.length_reverse.symm
  have hback : (p.advance w p.depth).back.drop w.length = p.back := by
    rw [Place.advance, hlength, List.drop_left]
  rw [Place.passesOver, hword, hmark, hback, contains_byteMarks h]
  rfl

theorem passesOver_of_no_mark {language : HostLanguage}
    (h : language = .python → stringMarks.contains (lower p.word) = false) :
    p.passesOver language = skips language p [] := by
  cases language with
  | javaScript => rfl
  | python =>
      have hmarks : ∀ m ∈ Place.byteMarks, m ∈ stringMarks := by decide
      have hbytes : Place.byteMarks.contains (lower p.word) = false := by
        rw [Bool.eq_false_iff]
        intro hmem
        have hmark := List.contains_iff_mem.2 (hmarks _ (List.contains_iff_mem.1 hmem))
        rw [h rfl] at hmark
        cases hmark
      have hmark : p.mark = [] := by rw [Place.mark, h rfl, if_neg (by simp)]
      rw [Place.passesOver, hbytes, hmark]
      rfl

end Word

section Step

variable {language : HostLanguage} {p : Place} {c : Char} {r t z : Text} {style : QuoteStyle}

theorem step_code (hc : language.isCode c = true)
    (hword : language = .python → isWordChar c = false) :
    language.step p c r = { depth := language.depthAfter p.depth c } := by
  cases language with
  | python =>
      simp only [HostLanguage.isCode, Bool.and_eq_true, Bool.not_eq_true', decide_eq_true_eq] at hc
      simp only [HostLanguage.step, pythonStep, beq_eq_false_iff_ne.2 hc.2, hc.1, hword rfl,
        HostLanguage.depthAfter, Bool.false_eq_true, if_false]
      split
      · rfl
      · split <;> rfl
  | javaScript =>
      simp only [HostLanguage.isCode, Bool.and_eq_true, Bool.not_eq_true', decide_eq_true_eq] at hc
      rw [HostLanguage.step, javaScriptStep_plain hc.1.1 hc.1.2]
      simp [hc.2, HostLanguage.depthAfter]

theorem lineTail_append (ht : '\n' ∉ t) (hz : ∀ c ∈ z.head?, c = '\n') :
    lineTail (t ++ z) = t.length := by
  have hall : ∀ c ∈ t, decide (c ≠ '\n') = true := by
    intro c hc
    rw [decide_eq_true_eq]
    rintro rfl
    exact ht hc
  have hstop : ∀ c ∈ z.head?, decide (c ≠ '\n') = false := fun c hc => by simp [hz c hc]
  rw [lineTail, takeWhile_run hall hstop]

theorem blockCommentTail_append (ht : occursIn ['*', '/'] t = false) (z : Text) :
    Lexer.blockCommentTail (t ++ '*' :: '/' :: z) = t.length + 2 := by
  induction t with
  | nil => rfl
  | cons c t ih =>
      obtain ⟨hstart, htail⟩ := Bool.or_eq_false_iff.1 ht
      obtain ⟨d, r, hr⟩ := List.exists_cons_of_ne_nil (l := t ++ '*' :: '/' :: z) (by simp)
      have hopen : ¬(c == '*' && d == '/') = true := by
        intro hboth
        obtain ⟨hc, hd⟩ := Bool.and_eq_true_iff.1 hboth
        obtain rfl := beq_iff_eq.1 hc
        obtain rfl := beq_iff_eq.1 hd
        cases t with
        | nil => cases (List.cons.inj hr).1
        | cons e t =>
            obtain rfl : e = '/' := (List.cons.inj hr).1
            cases hstart
      rw [List.cons_append, hr, Lexer.blockCommentTail, if_neg hopen, ← hr, ih htail,
        List.length_cons]
      omega

theorem steps_lineComment (ht : '\n' ∉ t) (hz : ∀ c ∈ z.head?, c = '\n') :
    steps language.step p (language.commentMark ++ t ++ z) =
      steps language.step (p.advance (language.commentMark ++ t) p.depth) z := by
  cases language with
  | python =>
      have hstep : HostLanguage.python.step p '#' (t ++ z) =
          { length := t.length, depth := p.depth } := by
        rw [← lineTail_append ht hz]
        rfl
      exact steps_eq hstep rfl rfl
  | javaScript =>
      have hslash : '\n' ∉ '/' :: t := by simp [ht]
      have hstep : HostLanguage.javaScript.step p '/' ('/' :: t ++ z) =
          { length := t.length + 1, depth := p.depth } := by
        have htail : t.length + 1 = lineTail ('/' :: t ++ z) := (lineTail_append hslash hz).symm
        rw [htail]
        rfl
      exact steps_eq hstep rfl rfl

theorem steps_blockComment (ht : occursIn ['*', '/'] t = false) :
    steps HostLanguage.javaScript.step p (Piece.text .javaScript (.blockComment t) ++ z) =
      steps HostLanguage.javaScript.step
        (p.advance (Piece.text .javaScript (.blockComment t)) p.depth) z := by
  have hstep : HostLanguage.javaScript.step p '/' ('*' :: (t ++ ['*', '/']) ++ z) =
      { length := 1 + (t.length + 2), depth := p.depth } := by
    have happend : t ++ ['*', '/'] ++ z = t ++ '*' :: '/' :: z := by simp
    rw [← blockCommentTail_append ht z, ← happend]
    rfl
  refine steps_eq hstep rfl ?_
  simp only [Piece.text, List.length_cons, List.length_append, List.length_nil]
  omega

theorem quoteAt?_word {q : Char} {rest : Text} (hc : isWordChar c = true)
    (hmark : stringMarks.contains (lower (c :: r.takeWhile isWordChar)) = true)
    (hrest : r.dropWhile isWordChar = q :: rest) (hq : isQuote q = true) :
    quoteAt? .python c r = some (c :: r.takeWhile isWordChar, q, rest) := by
  have hword : isQuote c = false := by
    rw [Bool.eq_false_iff]
    intro hquote
    rcases isQuote_iff.1 hquote with rfl | rfl <;> cases hc
  rw [quoteAt?, hword, if_neg (by simp), if_pos ⟨rfl, hc, hmark⟩, hrest]
  simp only [hq, if_true]

theorem step_word (hc : isWordChar c = true)
    (h : ∀ q ∈ (r.dropWhile isWordChar).head?, isQuote q = true →
      stringMarks.contains (lower (c :: r.takeWhile isWordChar)) = false) :
    HostLanguage.python.step p c r =
      { length := (r.takeWhile isWordChar).length, depth := p.depth } := by
  rw [HostLanguage.step, pythonStep_word hc, pythonWord]
  split
  next q rest hrest =>
    have hplain : ¬(isQuote q && stringMarks.contains (lower (c :: r.takeWhile isWordChar))) =
        true := by
      intro hboth
      obtain ⟨hq, hmark⟩ := Bool.and_eq_true_iff.1 hboth
      rw [h q (by rw [hrest]; rfl) hq] at hmark
      cases hmark
    rw [if_neg hplain]
    rfl
  · rfl

end Step

section Literal

variable {language : HostLanguage} {p : Place} {c : Char} {r t : Text} {style : QuoteStyle}
  {ps : List Piece}

theorem triples_of_mem_styles (h : style ∈ language.styles) (htriple : style.isTriple = true) :
    language.triples = true := by
  revert h htriple
  cases language <;> cases style <;> decide

theorem Place.after_literal (p : Place) (style : QuoteStyle) (t : Text) :
    p.after language (.literal style t) =
      p.advance (style.delimiter ++ (t ++ style.delimiter)) p.depth := rfl

theorem steps_literal {mark rest : Text} {q : Char}
    (hpiece : Piece.Fits language (Piece.source language ps) (.literal style t))
    (hstyle : style ≠ .template)
    (hquote : quoteAt? language c r = some (mark, q, rest))
    (hr : c :: r = mark ++ Piece.source language (.literal style t :: ps))
    (hpasses : (p.advance mark p.depth).passesOver language = skips language p mark) :
    (steps language.step p (c :: r)).map Occurrence.extent =
      Piece.found language (p.advance mark p.depth) (.literal style t) ++
        (steps language.step ((p.advance mark p.depth).after language (.literal style t))
          (Piece.source language ps)).map Occurrence.extent := by
  obtain ⟨hknown, hcontent, hempty⟩ := hpiece
  have hdelimited : Piece.source language (.literal style t :: ps) =
      style.delimiter ++ (t ++ (style.delimiter ++ Piece.source language ps)) := by
    simp [Piece.source, Piece.text]
  rw [hdelimited] at hr
  have hrest : q :: rest =
      style.delimiter ++ (t ++ (style.delimiter ++ Piece.source language ps)) :=
    List.append_cancel_left ((quoteAt?_split hquote).2.1.symm.trans hr)
  have hlocate : locate? language.triples q rest = some ⟨style, t⟩ := by
    have hq : q = style.quote := by
      have hhead := congrArg List.head? hrest
      cases style <;> exact Option.some.inj hhead
    subst hq
    refine QuoteStyle.locate?_content hcontent hstyle (triples_of_mem_styles hknown)
      (fun htriples => hempty ?_) hrest
    cases language with
    | python => rfl
    | javaScript => cases htriples
  obtain ⟨identifier, hstep⟩ := step_of_quote hquote p
  rw [literalStep, hlocate] at hstep
  have hsplit : c :: r = mark ++ (style.delimiter ++ (t ++ style.delimiter)) ++
      Piece.source language ps := by
    simpa using hr
  rw [steps_eq hstep hsplit (literal_length style mark t), List.map_append,
    Place.after_literal, Place.advance_advance, Piece.found, hpasses]
  congr 1
  dsimp only
  split <;> rfl

theorem steps_template (hcontent : QuoteStyle.template.IsContent t) :
    (steps HostLanguage.javaScript.step p
        (Piece.source .javaScript (.literal .template t :: ps))).map Occurrence.extent =
      Piece.found .javaScript p (.literal .template t) ++
        (steps HostLanguage.javaScript.step (p.after .javaScript (.literal .template t))
          (Piece.source .javaScript ps)).map Occurrence.extent := by
  have hlocate : locateTemplate? (t ++ backtick :: Piece.source .javaScript ps) =
      some ⟨.template, t⟩ := by
    rw [locateTemplate?, QuoteStyle.template?_content hcontent, Option.map_some, List.take_left]
  have hsplit : backtick :: (t ++ backtick :: Piece.source .javaScript ps) =
      Piece.source .javaScript (.literal .template t :: ps) := by
    simp [Piece.source, Piece.text, QuoteStyle.delimiter, QuoteStyle.isTriple, QuoteStyle.quote]
  rcases step_backtick p (t ++ backtick :: Piece.source .javaScript ps) with
    ⟨hnone, -⟩ | ⟨l, identifier, hsome, hstep⟩
  · rw [hlocate] at hnone
    cases hnone
  · obtain rfl : ⟨.template, t⟩ = l := Option.some.inj (hlocate.symm.trans hsome)
    have hlength := literal_length .template [] t
    rw [List.nil_append, List.length_nil, Nat.zero_add] at hlength
    rw [← hsplit, steps_eq hstep (hsplit.trans (List.flatMap_cons ..)) hlength]
    rfl

theorem Place.word_after_literal (p : Place) (style : QuoteStyle) (t : Text) :
    (p.after language (.literal style t)).word = [] := by
  refine Place.word_eq_nil fun c hc => ?_
  have hlast : (p.after language (.literal style t)).back.head? = some style.quote := by
    cases style <;>
      simp [after, advance, Piece.text, QuoteStyle.delimiter, QuoteStyle.isTriple]
  obtain rfl : style.quote = c := Option.some.inj (hlast.symm.trans hc)
  cases style <;> rfl

end Literal

section Composed

variable {language : HostLanguage} {p : Place} {style : QuoteStyle} {ps : List Piece}

def Settled (language : HostLanguage) (p : Place) (t : Text) : Prop :=
  language = .python → ∀ c ∈ t.head?, (isWordChar c = true → p.word = []) ∧
    (isQuote c = true → stringMarks.contains (lower p.word) = false)

theorem settled_of_word_eq_nil (h : p.word = []) (t : Text) : Settled language p t := by
  refine fun _ c _ => ⟨fun _ => h, fun _ => ?_⟩
  rw [h]
  decide

theorem literals_code_cons (p : Place) (c : Char) (t : Text) (ps : List Piece) :
    Piece.literals language p (.code (c :: t) :: ps) =
      Piece.literals language (p.after language (.code [c])) (.code t :: ps) := by
  have hafter : p.after language (.code (c :: t)) =
      (p.after language (.code [c])).after language (.code t) := p.after_append [c] t
  simp only [Piece.literals, Piece.found, hafter]

theorem depthAfter_word {c : Char} (hc : isWordChar c = true) (depth : Nat) :
    HostLanguage.python.depthAfter depth c = depth := by
  have hbrackets : ['(', '[', openBrace, ')', ']', closeBrace].all (fun d => !isWordChar d) =
      true := rfl
  have hother : ∀ d ∈ ['(', '[', openBrace, ')', ']', closeBrace], (c == d) = false := by
    intro d hd
    rw [beq_eq_false_iff_ne]
    rintro rfl
    have hword := List.all_eq_true.1 hbrackets c hd
    rw [hc] at hword
    cases hword
  simp only [List.mem_cons, forall_eq_or_imp, List.not_mem_nil, false_imp_iff, implies_true,
    and_true] at hother
  simp [HostLanguage.depthAfter, hother]

theorem Place.after_word {w : Text} (hw : ∀ c ∈ w, isWordChar c = true) :
    p.after .python (.code w) = p.advance w p.depth := by
  have hdepth : w.foldl HostLanguage.python.depthAfter p.depth = p.depth := by
    induction w with
    | nil => rfl
    | cons c w ih =>
        rw [List.foldl_cons, depthAfter_word (hw c List.mem_cons_self)]
        exact ih fun d hd => hw d (List.mem_cons_of_mem c hd)
  rw [after, hdepth]
  rfl

/-- What stands behind the word that `ps` begin with. -/
structure BehindWord (ps ps' : List Piece) : Prop where
  composed : Piece.Composed .python ps'
  length_le : ps'.length ≤ ps.length
  source : Piece.source .python ps' = (Piece.source .python ps).dropWhile isWordChar
  literals (p : Place) : Piece.literals .python p ps = Piece.literals .python
    (p.advance ((Piece.source .python ps).takeWhile isWordChar) p.depth) ps'

theorem BehindWord.of_no_word (h : Piece.Composed .python ps)
    (hhead : ∀ c ∈ (Piece.source .python ps).head?, isWordChar c = false) : BehindWord ps ps := by
  cases hsource : Piece.source .python ps with
  | nil => exact ⟨h, Nat.le_refl _, by rw [hsource]; rfl, fun p => by rw [hsource]; rfl⟩
  | cons c r =>
      have hc := hhead c (by rw [hsource]; rfl)
      refine ⟨h, Nat.le_refl _, ?_, fun p => ?_⟩
      · rw [hsource, List.dropWhile_cons_of_neg (by simp [hc])]
      · rw [hsource, List.takeWhile_cons_of_neg (by simp [hc]), Place.advance_nil]

theorem BehindWord.cons {c : Char} {t : Text} {ps' : List Piece} (hc : isWordChar c = true)
    (h : BehindWord (.code t :: ps) ps') : BehindWord (.code (c :: t) :: ps) ps' := by
  have hsource : Piece.source .python (.code (c :: t) :: ps) =
      c :: Piece.source .python (.code t :: ps) := rfl
  refine ⟨h.composed, h.length_le, ?_, fun p => ?_⟩
  · rw [hsource, List.dropWhile_cons_of_pos hc, h.source]
  · have hword : p.after .python (.code [c]) = p.advance [c] p.depth :=
      Place.after_word (by simpa using hc)
    have hliterals : Piece.literals .python p (.code (c :: t) :: ps) =
        Piece.literals .python (p.advance [c] p.depth) (.code t :: ps) := by
      rw [literals_code_cons, hword]
    rw [hsource, List.takeWhile_cons_of_pos hc, hliterals, h.literals, Place.advance_advance]
    rfl

theorem exists_behindWord (h : Piece.Composed .python ps) : ∃ ps', BehindWord ps ps' := by
  induction ps with
  | nil => exact ⟨[], .of_no_word trivial (by simp [Piece.source])⟩
  | cons x ps ih =>
      cases x with
      | code t =>
          induction t with
          | nil =>
              obtain ⟨ps', hps'⟩ := ih h.2
              exact ⟨ps', hps'.composed, Nat.le_succ_of_le hps'.length_le, hps'.source,
                hps'.literals⟩
          | cons c t iht =>
              by_cases hc : isWordChar c = true
              · have htail : Piece.Composed .python (.code t :: ps) :=
                  ⟨fun d hd => h.1 d (List.mem_cons_of_mem c hd), h.2⟩
                obtain ⟨ps', hps'⟩ := iht htail
                exact ⟨ps', hps'.cons hc⟩
              · refine ⟨_, .of_no_word h fun d hd => ?_⟩
                obtain rfl : c = d := Option.some.inj hd
                simpa using hc
      | lineComment t =>
          refine ⟨_, .of_no_word h fun d hd => ?_⟩
          obtain rfl : '#' = d := Option.some.inj hd
          rfl
      | blockComment t => cases h.1.1
      | literal style t =>
          refine ⟨_, .of_no_word h fun d hd => ?_⟩
          cases style <;> obtain rfl := Option.some.inj hd <;> rfl

theorem exists_literal (h : Piece.Composed .python ps) {q : Char} {rest : Text}
    (hsource : Piece.source .python ps = q :: rest) (hq : isQuote q = true) :
    ∃ style t ps', Piece.Composed .python (.literal style t :: ps') ∧
      ps'.length < ps.length ∧ Piece.source .python (.literal style t :: ps') = q :: rest ∧
      ∀ p, Piece.literals .python p ps = Piece.literals .python p (.literal style t :: ps') := by
  induction ps with
  | nil => cases hsource
  | cons x ps ih =>
      cases x with
      | code t =>
          cases t with
          | nil =>
              obtain ⟨style, t, ps', hcomposed, hlength, hrest, hliterals⟩ := ih h.2 hsource
              exact ⟨style, t, ps', hcomposed, Nat.lt_succ_of_lt hlength, hrest, hliterals⟩
          | cons c t =>
              obtain rfl : c = q := (List.cons.inj hsource).1
              have hcode := h.1 c List.mem_cons_self
              simp [HostLanguage.isCode, hq] at hcode
      | lineComment t =>
          obtain rfl : '#' = q := (List.cons.inj hsource).1
          cases hq
      | blockComment t => cases h.1.1
      | literal style t => exact ⟨style, t, ps, h, Nat.lt_succ_self _, hsource, fun _ => rfl⟩

theorem exists_quote (hknown : style ∈ language.styles) (hstyle : style ≠ .template) (t : Text)
    (ps : List Piece) : ∃ c r, Piece.source language (.literal style t :: ps) = c :: r ∧
      quoteAt? language c r = some ([], c, r) := by
  cases style <;> first | exact ⟨_, _, rfl, rfl⟩ | exact absurd rfl hstyle

section Word

variable {c : Char} {r : Text} {ps' : List Piece}

theorem BehindWord.split (h : BehindWord ps ps') (hsource : Piece.source .python ps = c :: r)
    (hc : isWordChar c = true) : Piece.source .python ps' = r.dropWhile isWordChar ∧
      c :: r = c :: r.takeWhile isWordChar ++ Piece.source .python ps' := by
  have hdrop : Piece.source .python ps' = r.dropWhile isWordChar := by
    rw [h.source, hsource, List.dropWhile_cons_of_pos hc]
  exact ⟨hdrop, by rw [hdrop, List.cons_append, List.takeWhile_append_dropWhile]⟩

theorem BehindWord.length_lt (h : BehindWord ps ps') (hsource : Piece.source .python ps = c :: r)
    (hc : isWordChar c = true) :
    (Piece.source .python ps').length + ps'.length <
      (Piece.source .python ps).length + ps.length := by
  have hlength := congrArg List.length (hsource.trans (h.split hsource hc).2)
  have hle := h.length_le
  rw [hlength, List.length_append, List.length_cons]
  omega

theorem BehindWord.literals_cons (h : BehindWord ps ps')
    (hsource : Piece.source .python ps = c :: r) (hc : isWordChar c = true) (p : Place) :
    Piece.literals .python p ps =
      Piece.literals .python (p.advance (c :: r.takeWhile isWordChar) p.depth) ps' := by
  rw [h.literals, hsource, List.takeWhile_cons_of_pos hc]

theorem Place.word_advance_takeWhile (hp : p.word = []) (hc : isWordChar c = true) :
    (p.advance (c :: r.takeWhile isWordChar) p.depth).word = c :: r.takeWhile isWordChar := by
  refine Place.word_advance hp (fun d hd => ?_) p.depth
  rcases List.mem_cons.1 hd with rfl | hd
  · exact hc
  · exact List.all_eq_true.1 List.all_takeWhile d hd

theorem BehindWord.settled (h : BehindWord ps ps') (hsource : Piece.source .python ps = c :: r)
    (hc : isWordChar c = true) (hp : p.word = [])
    (hmark : ∀ q ∈ (Piece.source .python ps').head?, isQuote q = true →
      stringMarks.contains (lower (c :: r.takeWhile isWordChar)) = false) :
    Settled .python (p.advance (c :: r.takeWhile isWordChar) p.depth)
      (Piece.source .python ps') := by
  intro _ d hd
  have hother : isWordChar d = false := by
    have hhead := List.head?_dropWhile_not isWordChar r
    rw [← (h.split hsource hc).1, hd] at hhead
    exact hhead
  refine ⟨fun hword => ?_, fun hq => ?_⟩
  · rw [hother] at hword
    cases hword
  · rw [Place.word_advance_takeWhile hp hc]
    exact hmark d hd hq

theorem steps_word (h : BehindWord ps ps') (hsource : Piece.source .python ps = c :: r)
    (hc : isWordChar c = true)
    (hmark : ∀ q ∈ (Piece.source .python ps').head?, isQuote q = true →
      stringMarks.contains (lower (c :: r.takeWhile isWordChar)) = false) :
    steps HostLanguage.python.step p (Piece.source .python ps) =
      steps HostLanguage.python.step (p.advance (c :: r.takeWhile isWordChar) p.depth)
        (Piece.source .python ps') := by
  obtain ⟨hdrop, hsplit⟩ := h.split hsource hc
  rw [hdrop] at hmark
  rw [hsource]
  exact steps_eq (step_word hc hmark) hsplit rfl

theorem steps_marked {t : Text} {q : Char} {rest : Text} (h : BehindWord ps ps')
    (hsource : Piece.source .python ps = c :: r) (hc : isWordChar c = true) (hp : p.word = [])
    (hmark : stringMarks.contains (lower (c :: r.takeWhile isWordChar)) = true)
    (hq : isQuote q = true) (hquote : Piece.source .python ps' = q :: rest) {qs : List Piece}
    (hpiece : Piece.Fits .python (Piece.source .python qs) (.literal style t))
    (hqs : Piece.source .python (.literal style t :: qs) = q :: rest) :
    (steps HostLanguage.python.step p (Piece.source .python ps)).map Occurrence.extent =
      Piece.found .python (p.advance (c :: r.takeWhile isWordChar) p.depth) (.literal style t) ++
        (steps HostLanguage.python.step
          ((p.advance (c :: r.takeWhile isWordChar) p.depth).after .python (.literal style t))
          (Piece.source .python qs)).map Occurrence.extent := by
  obtain ⟨hdrop, hsplit⟩ := h.split hsource hc
  have hstyle : style ≠ .template := by
    rintro rfl
    exact absurd hpiece.1 (by decide)
  rw [hsource]
  exact steps_literal hpiece hstyle (quoteAt?_word hc hmark (hdrop.symm.trans hquote) hq)
    (by rw [hqs, ← hquote]; exact hsplit)
    (passesOver_of_mark hmark (Place.word_advance_takeWhile hp hc))

end Word

def Scanned (language : HostLanguage) (ps : List Piece) : Prop :=
  ∀ p, Settled language p (Piece.source language ps) →
    (steps language.step p (Piece.source language ps)).map Occurrence.extent =
      Piece.literals language p ps

section Scanned

variable {t : Text}

theorem scanned_nil : Scanned language [] := fun p _ => by
  simp [Piece.source, Piece.literals, steps]

theorem scanned_code {c : Char} (hc : language.isCode c = true)
    (hplain : language = .python → isWordChar c = false)
    (h : Scanned language (.code t :: ps)) : Scanned language (.code (c :: t) :: ps) := by
  intro p _
  have hsettled : Settled language (p.after language (.code [c]))
      (Piece.source language (.code t :: ps)) := by
    refine fun hpython => settled_of_word_eq_nil (Place.word_eq_nil fun d hd => ?_) _ hpython
    obtain rfl : c = d := Option.some.inj hd
    exact hplain hpython
  rw [literals_code_cons, ← h _ hsettled]
  exact congrArg (List.map _) (steps_eq (step_code hc hplain) rfl rfl)

theorem scanned_lineComment
    (hfits : Piece.Fits language (Piece.source language ps) (.lineComment t))
    (h : Scanned language ps) : Scanned language (.lineComment t :: ps) := by
  intro p _
  have hsettled : Settled language (p.after language (.lineComment t))
      (Piece.source language ps) := by
    intro _ c hc
    obtain rfl := hfits.2 c hc
    exact ⟨nofun, nofun⟩
  rw [Piece.literals, ← h _ hsettled]
  exact congrArg (List.map _) (steps_lineComment hfits.1 hfits.2)

theorem scanned_blockComment
    (hfits : Piece.Fits language (Piece.source language ps) (.blockComment t))
    (h : Scanned language ps) : Scanned language (.blockComment t :: ps) := by
  intro p _
  obtain ⟨rfl, ht⟩ := hfits
  have hsettled : Settled .javaScript (p.after .javaScript (.blockComment t))
      (Piece.source .javaScript ps) := nofun
  rw [Piece.literals, ← h _ hsettled]
  exact congrArg (List.map _) (steps_blockComment ht)

theorem scanned_literal
    (hfits : Piece.Fits language (Piece.source language ps) (.literal style t))
    (h : Scanned language ps) : Scanned language (.literal style t :: ps) := by
  intro p hp
  rw [Piece.literals, ← h _ (settled_of_word_eq_nil (p.word_after_literal style t) _)]
  by_cases hstyle : style = .template
  · subst hstyle
    cases language with
    | python => exact absurd hfits.1 (by decide)
    | javaScript => exact steps_template hfits.2.1
  · obtain ⟨c, r, hr, hquote⟩ := exists_quote hfits.1 hstyle t ps
    rw [hr] at hp ⊢
    have hpasses : (p.advance [] p.depth).passesOver language = skips language p [] :=
      passesOver_of_no_mark fun hpython => (hp hpython c rfl).2 (quoteAt?_split hquote).1
    have hsteps := steps_literal hfits hstyle hquote hr.symm hpasses
    exact hsteps

theorem scanned_word {c : Char} {r : Text} {ps' : List Piece} (hps' : BehindWord ps ps')
    (hsource : Piece.source .python ps = c :: r) (hc : isWordChar c = true)
    (h : Scanned .python ps') (hliteral : ∀ style t qs, qs.length < ps'.length →
      Piece.source .python (.literal style t :: qs) = Piece.source .python ps' →
      Piece.Composed .python qs → Scanned .python qs) : Scanned .python ps := by
  intro p hp
  rw [hsource] at hp
  have hpword := (hp rfl c rfl).1 hc
  by_cases hmark : ∀ q ∈ (Piece.source .python ps').head?, isQuote q = true →
      stringMarks.contains (lower (c :: r.takeWhile isWordChar)) = false
  · rw [hps'.literals_cons hsource hc, steps_word hps' hsource hc hmark]
    exact h _ (hps'.settled hsource hc hpword hmark)
  · push Not at hmark
    obtain ⟨q, hhead, hq, hmark⟩ := hmark
    obtain ⟨rest, hquote⟩ := List.head?_eq_some_iff.1 hhead
    obtain ⟨style, t, qs, hqs, hlength, hqsource, hliterals⟩ :=
      exists_literal hps'.composed hquote hq
    have hrest := hliteral style t qs hlength (hqsource.trans hquote.symm) hqs.2
    rw [hps'.literals_cons hsource hc, hliterals, Piece.literals,
      ← hrest _ (settled_of_word_eq_nil (Place.word_after_literal _ style t) _)]
    exact steps_marked hps' hsource hc hpword (eq_true_of_ne_false hmark) hq hquote hqs.1 hqsource

end Scanned

theorem length_lt_cons (language : HostLanguage) (x : Piece) (ps : List Piece) :
    (Piece.source language ps).length + ps.length <
      (Piece.source language (x :: ps)).length + (x :: ps).length := by
  simp only [Piece.source, List.flatMap_cons, List.length_append, List.length_cons]
  omega

theorem scanned_of_composed (h : Piece.Composed language ps) : Scanned language ps := by
  -- Not on the pieces: the word that a piece ends with may go on in the next one.
  induction hn : (Piece.source language ps).length + ps.length using Nat.strong_induction_on
    generalizing ps with
  | _ n ih =>
  subst hn
  cases ps with
  | nil => exact scanned_nil
  | cons x ps =>
      have hrest : Scanned language ps := ih _ (length_lt_cons language x ps) h.2 rfl
      cases x with
      | code t =>
          cases t with
          | nil => exact hrest
          | cons c t =>
              by_cases hword : language = .python ∧ isWordChar c = true
              · obtain ⟨rfl, hc⟩ := hword
                obtain ⟨ps', hps'⟩ := exists_behindWord h
                have hlt := hps'.length_lt rfl hc
                refine scanned_word hps' rfl hc (ih _ hlt hps'.composed rfl) ?_
                intro style u qs hlength hqsource hqs
                have hbehind := length_lt_cons .python (.literal style u) qs
                rw [hqsource, List.length_cons] at hbehind
                exact ih _ (by omega) hqs rfl
              · have htail : Piece.Composed language (.code t :: ps) :=
                  ⟨fun d hd => h.1 d (List.mem_cons_of_mem c hd), h.2⟩
                have hlt : (Piece.source language (.code t :: ps)).length + (ps.length + 1) <
                    (Piece.source language (.code (c :: t) :: ps)).length + (ps.length + 1) :=
                  Nat.add_lt_add_right (Nat.lt_succ_self _) _
                exact scanned_code (h.1 c List.mem_cons_self)
                  (fun hpython => Bool.eq_false_iff.2 fun hc => hword ⟨hpython, hc⟩)
                  (ih _ hlt htail rfl)
      | lineComment t => exact scanned_lineComment h.1 hrest
      | blockComment t => exact scanned_blockComment h.1 hrest
      | literal style t => exact scanned_literal h.1 hrest

end Composed

end Scan

theorem extract_composed (language : HostLanguage) (ps : List Piece)
    (h : Piece.Composed language ps) :
    (extract language (Piece.source language ps)).map Occurrence.extent =
      Piece.literals language {} ps := by
  rw [extract_eq]
  exact scanned_of_composed h {} (settled_of_word_eq_nil rfl _)

theorem extract_composed_marked :
    let ps : List Piece := [
      .literal .tripleDouble "It's \"run\" # once".toList, .code "\nq = [r".toList,
      .literal .single "a \\' b".toList, .literal .double [], .code " R".toList, .code "b".toList,
      .literal .double "\\\\".toList, .code "]\n".toList, .lineComment " don't".toList,
      .code "\ns = ".toList, .literal .single "after".toList, .code " + xb".toList,
      .literal .tripleSingle "last\n".toList]
    Piece.Composed .python ps ∧
      (extract .python (Piece.source .python ps)).map Occurrence.extent =
        Piece.literals .python {} ps ∧
      Piece.literals .python {} ps =
        [(.single, "a \\' b".toList, 31, 37), (.double, [], 39, 39),
          (.single, "after".toList, 62, 67), (.tripleSingle, "last\n".toList, 76, 81)] :=
  ⟨by decide +kernel, extract_composed .python _ (by decide +kernel), by decide +kernel⟩

example :
    let ps : List Piece := [
      .lineComment " it's".toList, .code "\nq = [".toList, .literal .double "//".toList,
      .blockComment "'*".toList, .code ", tag".toList,
      .literal .template "a\\`${f({b: 1, c: {}})}".toList, .code "]".toList]
    Piece.Composed .javaScript ps ∧ Piece.literals .javaScript {} ps =
      [(.double, "//".toList, 14, 16),
        (.template, "a\\`${f({b: 1, c: {}})}".toList, 29, 51)] := by
  decide +kernel

end EmbeddedSql
