import EmbeddedSql.Proofs.Literal.Locating
import EmbeddedSql.Proofs.Token.Reading

namespace EmbeddedSql

open Text

namespace HostLanguage

open Scan

def step : HostLanguage → Place → Char → Text → Step
  | .python => pythonStep
  | .javaScript => javaScriptStep

def triples : HostLanguage → Bool
  | .python => true
  | .javaScript => false

end HostLanguage

theorem extract_eq (language : HostLanguage) (source : Text) :
    extract language source = Scan.steps language.step {} source := by
  cases language <;> rfl

namespace Scan

def quoteAt? (language : HostLanguage) (c : Char) (r : Text) : Option (Text × Char × Text) :=
  if isQuote c then some ([], c, r)
  else if language = .python ∧ isWordChar c ∧
      stringMarks.contains (lower (c :: r.takeWhile isWordChar)) then
    match r.dropWhile isWordChar with
    | q :: rest => if isQuote q then some (c :: r.takeWhile isWordChar, q, rest) else none
    | [] => none
  else none

def skips (language : HostLanguage) (p : Place) (mark : Text) : Bool :=
  language = .python &&
    (List.contains mark 'b' || List.contains mark 'B' || isStatement p)

def literalStep (language : HostLanguage) (p : Place) (mark : Text) (quote : Char) (r : Text)
    (identifier : Option Text) : Step :=
  match locate? language.triples quote r with
  | none => { length := mark.length, depth := p.depth }
  | some l =>
      { length := mark.length + l.tail
        depth := p.depth
        found := if skips language p mark then none else some (occurrence p mark identifier l) }

section Quote

variable {language : HostLanguage} {c q : Char} {r mark rest : Text}

theorem quoteAt?_split (h : quoteAt? language c r = some (mark, q, rest)) :
    isQuote q = true ∧ c :: r = mark ++ q :: rest ∧ ∀ d ∈ mark, isWordChar d = true := by
  unfold quoteAt? at h
  split at h
  next hc =>
    obtain ⟨rfl, rfl, rfl⟩ : [] = mark ∧ c = q ∧ r = rest := by simpa using h
    exact ⟨hc, rfl, by simp⟩
  · split at h
    next hword =>
      split at h
      next q' rest' hrest =>
        split at h
        next hq =>
          obtain ⟨rfl, rfl, rfl⟩ : c :: r.takeWhile isWordChar = mark ∧ q' = q ∧ rest' = rest := by
            simpa using h
          refine ⟨hq, ?_, ?_⟩
          · rw [List.cons_append, ← hrest, List.takeWhile_append_dropWhile]
          · intro d hd
            rcases List.mem_cons.1 hd with rfl | hd
            · exact hword.2.1
            · exact List.all_eq_true.1 List.all_takeWhile d hd
        · cases h
      · cases h
    · cases h

theorem pythonStep_word (hc : isWordChar c = true) (p : Place) (r : Text) :
    pythonStep p c r = pythonWord p c r := by
  have hmarks : ∀ d ∈ ['#', singleQuote, doubleQuote, '(', '[', openBrace, ')', ']', closeBrace],
      (c == d) = false := by
    have hnone : ['#', singleQuote, doubleQuote, '(', '[', openBrace, ')', ']', closeBrace].all
        (fun d => !isWordChar d) = true := rfl
    intro d hd
    rw [beq_eq_false_iff_ne]
    rintro rfl
    have hword := List.all_eq_true.1 hnone c hd
    rw [hc] at hword
    cases hword
  simp only [List.mem_cons, forall_eq_or_imp, List.not_mem_nil, false_imp_iff, implies_true,
    and_true] at hmarks
  simp [pythonStep, isQuote, hmarks, hc]

theorem step_of_quote (h : quoteAt? language c r = some (mark, q, rest)) (p : Place) :
    ∃ identifier, language.step p c r = literalStep language p mark q rest identifier := by
  unfold quoteAt? at h
  split at h
  next hc =>
    obtain ⟨rfl, rfl, rfl⟩ : [] = mark ∧ c = q ∧ r = rest := by simpa using h
    cases language with
    | python =>
        refine ⟨Binding.identifierBack? .python p.back, ?_⟩
        rcases isQuote_iff.1 hc with rfl | rfl <;> rfl
    | javaScript =>
        refine ⟨Binding.identifierBack? .javaScript p.back, ?_⟩
        have hslash : ¬(c == '/') = true := by
          rcases isQuote_iff.1 hc with rfl | rfl <;> decide
        rw [HostLanguage.step, javaScriptStep, literalStep]
        simp only [hslash, Bool.false_and, Bool.false_eq_true, if_false, hc, if_true]
        show (match locate? false c r with | none => _ | some l => _) =
          match locate? false c r with | none => _ | some l => _
        cases locate? false c r with
        | none => rfl
        | some l => simp [skips]
  · split at h
    next hquote hword =>
      obtain ⟨rfl, hc, hmark⟩ := hword
      split at h
      next q' rest' hrest =>
        split at h
        next hq =>
          obtain ⟨rfl, rfl, rfl⟩ : c :: r.takeWhile isWordChar = mark ∧ q' = q ∧ rest' = rest := by
            simpa using h
          refine ⟨Binding.identifierBack? .python p.back, ?_⟩
          rw [HostLanguage.step, pythonStep_word hc, pythonWord, hrest]
          dsimp only
          rw [if_pos (by rw [hq, hmark]; rfl)]
          rfl
        · cases h
      · cases h
    · cases h

end Quote

theorem split_cons {c : Char} {r a b : Text} {n : Nat} (h : c :: r = a ++ b)
    (ha : a.length = n + 1) : c :: r.take n = a ∧ r.drop n = b := by
  constructor
  · have htake := congrArg (List.take (n + 1)) h
    rwa [List.take_left' ha, List.take_succ_cons] at htake
  · have hdrop := congrArg (List.drop (n + 1)) h
    rwa [List.drop_left' ha, List.drop_succ_cons] at hdrop

theorem literal_length (style : QuoteStyle) (mark u : Text) :
    (mark ++ (style.delimiter ++ (u ++ style.delimiter))).length =
      mark.length + Located.tail ⟨style, u⟩ + 1 := by
  have hpos := delimiter_length_pos style
  simp only [List.length_append, Located.tail]
  omega

theorem take_literal {style : QuoteStyle} {c : Char} {r mark u z : Text}
    (h : c :: r = mark ++ (style.delimiter ++ (u ++ (style.delimiter ++ z)))) :
    c :: r.take (mark.length + Located.tail ⟨style, u⟩) =
        mark ++ (style.delimiter ++ (u ++ style.delimiter)) ∧
      r.drop (mark.length + Located.tail ⟨style, u⟩) = z :=
  split_cons (by simpa using h) (literal_length style mark u)

structure Finds (p : Place) (piece : Text) (o : Occurrence) (mark : Text) : Prop where
  piece : piece = mark ++ (o.style.delimiter ++ (o.text ++ o.style.delimiter))
  start : o.start = p.offset + (mark ++ o.style.delimiter).bytes
  stop : o.stop = o.start + o.text.bytes
  mark : '\n' ∉ mark
  encloses : o.style.Encloses o.text

def Unnested (o : Occurrence) : Prop :=
  o.style = .template → ∀ e ∈ Extent.substitutions o.text, backtick ∉ e

instance (o : Occurrence) : Decidable (Unnested o) :=
  inferInstanceAs (Decidable (o.style = .template → _))

section Found

variable {language : HostLanguage} {p : Place} {c : Char} {r : Text} {o : Occurrence}

theorem finds_of_occurrence {mark u z : Text} {style : QuoteStyle} {identifier : Option Text}
    (h : c :: r = mark ++ (style.delimiter ++ (u ++ (style.delimiter ++ z)))) (hmark : '\n' ∉ mark)
    (hu : style.Encloses u) :
    Finds p (c :: r.take (mark.length + Located.tail ⟨style, u⟩))
      (occurrence p mark identifier ⟨style, u⟩) mark where
  piece := (take_literal h).1
  start := by simp [occurrence, Nat.add_assoc]
  stop := rfl
  mark := hmark
  encloses := hu

theorem javaScriptStep_backtick (p : Place) (r : Text) : javaScriptStep p backtick r =
    match locateTemplate? r with
    | none => { length := r.length, depth := p.depth }
    | some l =>
        { length := l.tail
          depth := p.depth
          found := some (occurrence p [] ((Binding.tagBack? p.back).orElse fun _ =>
            Binding.identifierBack? .javaScript p.back) l) } := rfl

theorem step_backtick (p : Place) (r : Text) :
    (locateTemplate? r = none ∧
      HostLanguage.javaScript.step p backtick r = { length := r.length, depth := p.depth }) ∨
    ∃ l identifier, locateTemplate? r = some l ∧ HostLanguage.javaScript.step p backtick r =
      { length := l.tail, depth := p.depth, found := some (occurrence p [] identifier l) } := by
  have hstep := javaScriptStep_backtick p r
  cases hlocate : locateTemplate? r with
  | none =>
      rw [hlocate] at hstep
      exact .inl ⟨rfl, hstep⟩
  | some l =>
      rw [hlocate] at hstep
      exact .inr ⟨l, _, rfl, hstep⟩

theorem takeWhile_refilled {test : Char → Bool} {rest' : Text}
    (h : rest'.head? = (r.dropWhile test).head?) :
    (r.takeWhile test ++ rest').takeWhile test = r.takeWhile test ∧
      (r.takeWhile test ++ rest').dropWhile test = rest' := by
  have hstop : ∀ d ∈ rest'.head?, test d = false := by
    intro d hd
    have hnot := List.head?_dropWhile_not test r
    rw [← h, hd] at hnot
    exact hnot
  have hall : ∀ d ∈ r.takeWhile test, test d = true := List.all_eq_true.1 List.all_takeWhile
  exact ⟨takeWhile_run hall hstop, dropWhile_run hall hstop⟩

theorem take_takeWhile_length (test : Char → Bool) (r : Text) :
    r.take (r.takeWhile test).length = r.takeWhile test :=
  (List.prefix_iff_eq_take.1 (List.takeWhile_prefix test)).symm

theorem blockCommentTail_refilled {rest' : Text}
    (h : rest'.head? = (r.drop (Lexer.blockCommentTail r)).head?) :
    Lexer.blockCommentTail (r.take (Lexer.blockCommentTail r) ++ rest') =
      Lexer.blockCommentTail r := by
  have hle := Lexer.blockCommentTail_le r
  by_cases hrest : r.drop (Lexer.blockCommentTail r) = []
  · rw [hrest] at h
    rw [List.head?_eq_none_iff.1 h, List.append_nil, List.take_of_length_le]
    exact List.drop_eq_nil_iff.1 hrest
  · have hlength : (r.take (Lexer.blockCommentTail r)).length = Lexer.blockCommentTail r := by
      rw [List.length_take]
      omega
    have hwhole : Lexer.blockCommentTail (r.take (Lexer.blockCommentTail r) ++
        r.drop (Lexer.blockCommentTail r)) = (r.take (Lexer.blockCommentTail r)).length := by
      rw [List.take_append_drop, hlength]
    rw [Lexer.blockCommentTail_local hrest hwhole, hlength]

theorem lineTail_refilled {rest' : Text} (h : rest'.head? = (r.drop (lineTail r)).head?) :
    lineTail (r.take (lineTail r) ++ rest') = lineTail r := by
  unfold lineTail at h ⊢
  rw [Lexer.drop_takeWhile_length] at h
  rw [take_takeWhile_length, (takeWhile_refilled h).1]

theorem isQuote_of_quoteAt?_none (h : quoteAt? language c r = none) : isQuote c = false := by
  rw [Bool.eq_false_iff]
  intro hq
  rw [quoteAt?, if_pos hq] at h
  cases h

theorem pythonWord_of_other (h : quoteAt? .python c r = none) (hc : isWordChar c = true)
    {p' : Place} (hdepth : p'.depth = p.depth) {rest' : Text}
    (hrest' : rest'.head? = (r.dropWhile isWordChar).head?) :
    pythonWord p' c (r.takeWhile isWordChar ++ rest') =
      { length := (r.takeWhile isWordChar).length, depth := p.depth } := by
  obtain ⟨htake, hdrop⟩ := takeWhile_refilled hrest'
  rw [pythonWord, htake, hdrop]
  cases rest' with
  | nil => simp [hdepth]
  | cons q rest' =>
      obtain ⟨rest, hrest⟩ := List.head?_eq_some_iff.1 hrest'.symm
      have hplain : (isQuote q && stringMarks.contains (lower (c :: r.takeWhile isWordChar))) =
          false := by
        rw [Bool.eq_false_iff]
        intro hmark
        obtain ⟨hq, hmark⟩ := Bool.and_eq_true_iff.1 hmark
        rw [quoteAt?, if_neg (by simp [isQuote_of_quoteAt?_none h]), if_pos ⟨rfl, hc, hmark⟩,
          hrest] at h
        simp [hq] at h
      simp only [hplain, Bool.false_eq_true, if_false, hdepth, List.length_cons,
        Nat.add_sub_cancel]

theorem pythonStep_of_other (h : quoteAt? .python c r = none) {p' : Place}
    (hdepth : p'.depth = p.depth) {rest' : Text}
    (hrest' : rest'.head? = (r.drop (pythonStep p c r).length).head?) :
    pythonStep p' c (r.take (pythonStep p c r).length ++ rest') =
      { length := (pythonStep p c r).length, depth := (pythonStep p c r).depth } := by
  have hquote := isQuote_of_quoteAt?_none h
  by_cases hword : isWordChar c = true
  · have hstep := pythonWord_of_other h hword (p := p) rfl rfl
    rw [List.takeWhile_append_dropWhile, ← pythonStep_word hword] at hstep
    rw [hstep] at hrest' ⊢
    rw [Lexer.drop_takeWhile_length] at hrest'
    rw [pythonStep_word hword, take_takeWhile_length, pythonWord_of_other h hword hdepth hrest']
  · unfold pythonStep at hrest' ⊢
    simp only [hquote, hword, hdepth, Bool.false_eq_true, if_false] at hrest' ⊢
    split
    next hcomment =>
      rw [if_pos hcomment] at hrest'
      rw [lineTail_refilled hrest']
    · split
      · rfl
      · split <;> rfl

theorem javaScriptStep_plain (hquote : isQuote c = false) (hc : c ≠ backtick) (p : Place)
    (r : Text) : javaScriptStep p c r =
      { length :=
          if c = '/' ∧ r.head? = some '/' then lineTail r
          else if c = '/' ∧ r.head? = some '*' then 1 + Lexer.blockCommentTail (r.drop 1)
          else 0
        depth := p.depth } := by
  have htick : (c == backtick) = false := by simpa using hc
  simp only [javaScriptStep, hquote, htick, Bool.and_eq_true, beq_iff_eq, Bool.false_eq_true,
    if_false]
  split
  · rfl
  · split <;> rfl

theorem javaScriptStep_of_other (h : quoteAt? .javaScript c r = none) (hc : c ≠ backtick)
    {p' : Place} (hdepth : p'.depth = p.depth) {rest' : Text}
    (hrest' : rest'.head? = (r.drop (javaScriptStep p c r).length).head?) :
    javaScriptStep p' c (r.take (javaScriptStep p c r).length ++ rest') =
      { length := (javaScriptStep p c r).length, depth := (javaScriptStep p c r).depth } := by
  have hquote := isQuote_of_quoteAt?_none h
  rw [javaScriptStep_plain hquote hc] at hrest' ⊢
  rw [javaScriptStep_plain hquote hc]
  by_cases hline : c = '/' ∧ r.head? = some '/'
  · rw [if_pos hline] at hrest' ⊢
    obtain ⟨rfl, hhead⟩ := hline
    have hhead' : (r.take (lineTail r) ++ rest').head? = some '/' := by
      obtain ⟨r, rfl⟩ := List.head?_eq_some_iff.1 hhead
      simp [lineTail]
    rw [if_pos ⟨rfl, hhead'⟩, lineTail_refilled hrest', hdepth]
  · rw [if_neg hline] at hrest' ⊢
    by_cases hblock : c = '/' ∧ r.head? = some '*'
    · rw [if_pos hblock] at hrest' ⊢
      obtain ⟨rfl, hhead⟩ := hblock
      obtain ⟨r, rfl⟩ := List.head?_eq_some_iff.1 hhead
      simp only [List.drop_succ_cons, List.drop_zero, Nat.add_comm 1] at hrest'
      simp only [List.drop_succ_cons, List.drop_zero, Nat.add_comm 1, List.take_succ_cons,
        List.cons_append, List.head?_cons, blockCommentTail_refilled hrest', hdepth]
      simp
    · rw [if_neg hblock] at hrest' ⊢
      rw [List.drop_zero] at hrest'
      rw [List.take_zero, List.nil_append, hrest', if_neg hline, if_neg hblock, hdepth]

theorem step_of_other (h : quoteAt? language c r = none)
    (hc : language = .javaScript → c ≠ backtick) {p' : Place} (hdepth : p'.depth = p.depth)
    {rest' : Text} (hrest' : rest'.head? = (r.drop (language.step p c r).length).head?) :
    language.step p' c (r.take (language.step p c r).length ++ rest') =
      { length := (language.step p c r).length, depth := (language.step p c r).depth } := by
  cases language with
  | python => exact pythonStep_of_other h hdepth hrest'
  | javaScript => exact javaScriptStep_of_other h (hc rfl) hdepth hrest'

theorem length_le_of_other (h : quoteAt? language c r = none)
    (hc : language = .javaScript → c ≠ backtick) : (language.step p c r).length ≤ r.length := by
  have hline : lineTail r ≤ r.length := (List.takeWhile_prefix _).length_le
  have hquote := isQuote_of_quoteAt?_none h
  cases language with
  | python =>
      rw [HostLanguage.step]
      by_cases hword : isWordChar c = true
      · have hstep := pythonWord_of_other h hword (p := p) rfl rfl
        rw [List.takeWhile_append_dropWhile, ← pythonStep_word hword] at hstep
        rw [hstep]
        exact (List.takeWhile_prefix isWordChar).length_le
      · simp only [pythonStep, hquote, hword, Bool.false_eq_true, if_false]
        split
        · exact hline
        · split
          · exact Nat.zero_le _
          · split <;> exact Nat.zero_le _
  | javaScript =>
      rw [HostLanguage.step, javaScriptStep_plain hquote (hc rfl)]
      dsimp only
      split
      · exact hline
      · split
        next hblock =>
          obtain ⟨r, rfl⟩ := List.head?_eq_some_iff.1 hblock.2
          have hle := Lexer.blockCommentTail_le r
          simp only [List.drop_succ_cons, List.drop_zero, List.length_cons]
          omega
        · exact Nat.zero_le _

theorem found_of_other (h : quoteAt? language c r = none)
    (hc : language = .javaScript → c ≠ backtick) : (language.step p c r).found = none := by
  have hstep := step_of_other h hc (p := p) rfl rfl
  rw [List.take_append_drop] at hstep
  rw [hstep]

theorem step_finds (h : (language.step p c r).found = some o) (ho : Unnested o) :
    ∃ mark, Finds p (c :: r.take (language.step p c r).length) o mark := by
  cases hquote : quoteAt? language c r with
  | some x =>
      obtain ⟨mark, q, rest⟩ := x
      obtain ⟨hq, hsplit, hmark⟩ := quoteAt?_split hquote
      obtain ⟨identifier, hstep⟩ := step_of_quote hquote p
      obtain ⟨body, hbody⟩ := QuoteStyle.exists_body language.triples rest hq
      rw [hstep, literalStep] at h ⊢
      rcases QuoteStyle.locate?_cases language.triples rest hq hbody with
        ⟨hnone, -⟩ | ⟨u, z, rfl, hsome, hu⟩
      · rw [hnone] at h
        cases h
      · rw [hsome] at h ⊢
        dsimp only at h ⊢
        split at h
        · cases h
        · obtain rfl := Option.some.inj h
          refine ⟨mark, finds_of_occurrence (hbody ▸ hsplit) ?_ hu⟩
          intro hbreak
          exact absurd (hmark _ hbreak) (by decide)
  | none =>
      by_cases htick : language = .javaScript ∧ c = backtick
      · obtain ⟨rfl, rfl⟩ := htick
        rcases step_backtick p r with ⟨-, hstep⟩ | ⟨l, identifier, hlocate, hstep⟩
        · rw [hstep] at h
          cases h
        · rw [hstep] at h ⊢
          obtain rfl := Option.some.inj h
          obtain ⟨n, hn, rfl⟩ := Option.map_eq_some_iff.1 hlocate
          obtain ⟨b, hr, hencloses⟩ := Extent.encloses_of_template? hn (ho rfl)
          have hsplit : backtick :: r = [] ++ (QuoteStyle.template.delimiter ++
              (r.take n ++ (QuoteStyle.template.delimiter ++ b))) := congrArg (backtick :: ·) hr
          refine ⟨[], ?_⟩
          have hlength : Located.tail ⟨.template, r.take n⟩ =
              List.length ([] : Text) + Located.tail ⟨.template, r.take n⟩ := by simp
          rw [hlength]
          exact finds_of_occurrence hsplit (by simp) hencloses
      · rw [found_of_other hquote fun hlanguage hc => htick ⟨hlanguage, hc⟩] at h
        cases h

end Found

end Scan

end EmbeddedSql
