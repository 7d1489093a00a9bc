import EmbeddedSql.Proofs.Scan.Sources

namespace EmbeddedSql.Scan

open Text

def Place.At (p : Place) (source t : Text) : Prop :=
  p.back.reverse ++ t = source ∧ p.back.bytes = p.offset

section

variable {source t : Text} {p : Place}

theorem Place.At.start (source : Text) : Place.At {} source source := ⟨rfl, rfl⟩

theorem Place.At.restAt (h : p.At source t) : RestAt source p.offset t :=
  ⟨p.back.reverse, h.1, by rw [bytes_reverse, h.2]⟩

theorem Place.At.before (h : p.At source t) : source.slice? 0 p.offset = some p.back.reverse := by
  have hslice := RestAt.slice?_front p.back.reverse t
  rwa [h.1, bytes_reverse, h.2] at hslice

theorem Place.At.advance {piece rest : Text} (h : p.At source (piece ++ rest)) (depth : Nat) :
    (p.advance piece depth).At source rest := by
  refine ⟨?_, ?_⟩
  · rw [← h.1, Place.advance, List.reverse_append, List.reverse_reverse, List.append_assoc]
  · rw [Place.advance, bytes_append, bytes_reverse, h.2, Nat.add_comm]

theorem isEmpty_trim (s : Text) : (trimStart (trimEnd s)).isEmpty = s.all isBlank := by
  obtain ⟨w, hs, hw, -⟩ := exists_trimEnd s
  have hall : s.all isBlank = (trimEnd s).all isBlank := by
    conv_lhs => rw [hs, List.all_append, List.all_eq_true.2 hw, Bool.and_true]
  rw [hall, Bool.eq_iff_iff, List.isEmpty_iff, trimStart, List.dropWhile_eq_nil_iff,
    List.all_eq_true]

theorem isStatementAt?_eq (h : p.At source t) :
    isStatementAt? source p.depth p.offset = some (isStatement p) := by
  rw [isStatementAt?, isStatement]
  by_cases hdepth : p.depth = 0
  · have hsplit := Binding.reverse_takeWhile_append (· ≠ '\n') p.back.reverse
    rw [List.reverse_reverse] at hsplit
    have hstart := Binding.lastAt?_getD (fun c => utf8Size_of_beq (w := '\n') rfl) p.back.reverse
    rw [List.reverse_reverse, Binding.not_beq_eq] at hstart
    rw [if_neg (by omega), h.before, Option.bind_eq_bind, Option.bind_some]
    dsimp only
    rw [hstart]
    generalize hline : p.back.takeWhile (· ≠ '\n') = line at hsplit ⊢
    generalize hlines : p.back.dropWhile (· ≠ '\n') = lines at hsplit ⊢
    have hsource : source = lines.reverse ++ (line.reverse ++ t) := by
      rw [← List.append_assoc, hsplit, h.1]
    have hstop : p.offset = bytes lines.reverse + bytes line.reverse := by
      rw [← bytes_append, hsplit, bytes_reverse, h.2]
    have hlast := RestAt.slice? (RestAt.behind lines.reverse (line.reverse ++ t))
    rw [hstop, hsource, hlast, Option.bind_some, isEmpty_trim, List.all_reverse,
      RestAt.slice?_front, Option.bind_some, trimEndWhile, List.reverse_reverse,
      List.getLast?_reverse, decide_eq_true hdepth, Bool.true_and]
    cases line.all isBlank <;> rfl
  · rw [if_pos (Nat.pos_of_ne_zero hdepth), decide_eq_false hdepth]
    rfl

def Place.reach (p : Place) (t : Text) (x : Step) (found : List Occurrence) : Nat × Progress :=
  (p.offset + bytes (t.take (x.length + 1)), ⟨x.depth, found ++ x.found.toList⟩)

theorem slice?_content {mark u rest : Text} {style : QuoteStyle}
    (h : p.At source (mark ++ (style.delimiter ++ (u ++ rest)))) :
    source.slice? (placedAt (p.offset + mark.bytes) ⟨style, u⟩).start
      (placedAt (p.offset + mark.bytes) ⟨style, u⟩).stop = some u :=
  RestAt.slice? (RestAt.append (RestAt.append h.restAt))

theorem reach_literal (p : Place) (mark : Text) (l : Located) (z : Text) (found : Option Occurrence)
    (xs : List Occurrence) :
    p.reach (mark ++ (l.style.delimiter ++ (l.content ++ (l.style.delimiter ++ z))))
        ⟨mark.length + l.tail, p.depth, found⟩ xs =
      ((placedAt (p.offset + mark.bytes) l).after, ⟨p.depth, xs ++ found.toList⟩) := by
  have hsplit : mark ++ (l.style.delimiter ++ (l.content ++ (l.style.delimiter ++ z))) =
      mark ++ (l.style.delimiter ++ (l.content ++ l.style.delimiter)) ++ z := by simp
  rw [Place.reach, hsplit, List.take_left' (literal_length l.style mark l.content)]
  simp only [bytes_append, placedAt, Nat.add_assoc]

theorem record?_eq {mark z : Text} {l : Located}
    (h : p.At source (mark ++ (l.style.delimiter ++ (l.content ++ (l.style.delimiter ++ z)))))
    (identifier : Option Text) (found : List Occurrence) :
    record? source ⟨p.depth, found⟩ (placedAt (p.offset + mark.bytes) l) identifier =
      some (p.reach (mark ++ (l.style.delimiter ++ (l.content ++ (l.style.delimiter ++ z))))
        ⟨mark.length + l.tail, p.depth, some (occurrence p mark identifier l)⟩ found) := by
  rw [record?, placed?, slice?_content h, reach_literal]
  rfl

theorem reach_single {mark r : Text} {q : Char} (hq : q.utf8Size = 1) (p : Place) (depth : Nat)
    (found : List Occurrence) :
    p.reach (mark ++ q :: r) { length := mark.length, depth := depth } found =
      (p.offset + mark.bytes + 1, ⟨depth, found⟩) := by
  rw [Place.reach, List.take_length_add_append, bytes_append, List.take_succ_cons, bytes_cons, hq,
    List.take_zero, ← Nat.add_assoc]
  simp

theorem reach_first {c : Char} {r : Text} (hc : c.utf8Size = 1) (p : Place) (depth : Nat)
    (found : List Occurrence) :
    p.reach (c :: r) { depth := depth } found = (p.offset + 1, ⟨depth, found⟩) :=
  @reach_single [] r c hc p depth found

theorem stringStep?_eq {mark r : Text} {q : Char} (hq : isQuote q = true)
    (h : p.At source (mark ++ q :: r)) (found : List Occurrence) :
    stringStep? source ⟨p.depth, found⟩ p.offset (p.offset + mark.bytes) =
      some (p.reach (mark ++ q :: r) (pythonLiteral p mark q r) found) := by
  obtain ⟨body, hbody⟩ := QuoteStyle.exists_body true r hq
  rw [stringStep?, locateAt?_utf8 true hq h.restAt.append, pythonLiteral]
  rcases QuoteStyle.locate?_cases true r hq hbody with ⟨hnone, -⟩ | ⟨u, z, rfl, hsome, -⟩
  · rw [hnone]
    exact congrArg some (reach_single (isQuote_cases hq).1 p p.depth found).symm
  · have hsplit := h
    rw [hbody] at h
    rw [hsome, hbody, reach_literal (l := ⟨_, _⟩)]
    dsimp only [Option.map_some, Option.bind_eq_bind, Option.bind_some]
    rw [hsplit.restAt.slice?, isStatementAt?_eq hsplit, hsplit.before]
    dsimp only [Option.bind_some]
    rw [Binding.boundName?_reverse]
    dsimp only [Option.bind_some]
    rw [record?_eq h, reach_literal (l := ⟨_, _⟩)]
    cases List.contains mark 'b' || List.contains mark 'B' <;> cases isStatement p <;> simp

theorem Place.At.reach_eq (h : p.At source t) (depth : Nat) {n i : Nat} (found : List Occurrence)
    (hi : RestAt source i (t.drop (n + 1))) :
    p.reach t { length := n, depth := depth } found = (i, ⟨depth, found⟩) := by
  rw [Place.reach, (h.restAt.drop (n + 1)).unique hi]
  simp

theorem isWordChar_of_wide {c : Char} (hc : c.utf8Size ≠ 1) : isWordChar c = true := by
  have hascii : isAscii c = false := by
    rw [Bool.eq_false_iff]
    intro h
    have hlt : c.toNat < 128 := of_decide_eq_true h
    exact hc (Char.utf8Size_eq_one_iff.2 (show c.toNat ≤ 0x7f by omega))
  rw [isWordChar, hascii, Bool.not_false, Bool.or_true]

theorem agrees_isWordChar : Agrees (fun b => isWordChar (Char.ofUInt8 b)) isWordChar :=
  agrees_ofUInt8 fun _ => isWordChar_of_wide

theorem agrees_isQuote : Agrees (fun b => isQuote (Char.ofUInt8 b)) isQuote :=
  agrees_of_single fun _ h => (isQuote_cases h).1

theorem lineEnd_reach {c : Char} {r : Text} (hc : c ≠ '\n') (h : p.At source (c :: r))
    (found : List Occurrence) :
    p.reach (c :: r) { length := lineTail r, depth := p.depth } found =
      (lineEnd (utf8 source) p.offset, ⟨p.depth, found⟩) := by
  refine h.reach_eq _ found ?_
  have hend := lineEnd_utf8 h.restAt
  rw [List.dropWhile_cons_of_pos (by simpa using hc)] at hend
  rwa [List.drop_succ_cons, lineTail, Lexer.drop_takeWhile_length]

theorem wordStep?_eq {c : Char} {r : Text} (hc : isWordChar c = true) (h : p.At source (c :: r))
    (found : List Occurrence) :
    wordStep? source ⟨p.depth, found⟩ p.offset =
      some (p.reach (c :: r) (pythonWord p c r) found) := by
  have hword : c :: r = c :: r.takeWhile isWordChar ++ r.dropWhile isWordChar := by
    rw [List.cons_append, List.takeWhile_append_dropWhile]
  have hstop := runEnd_utf8 agrees_isWordChar h.restAt
  rw [List.dropWhile_cons_of_pos hc] at hstop
  have hquote := hstop.any_getElem?_utf8 agrees_isQuote
  have hsplit := h
  rw [hword] at hsplit
  have hbytes : runEnd isWordChar (utf8 source) p.offset =
      p.offset + bytes (c :: r.takeWhile isWordChar) := hstop.unique hsplit.restAt.append
  have hplain : p.reach (c :: r)
      { length := (c :: r.takeWhile isWordChar).length - 1, depth := p.depth } found =
        (runEnd isWordChar (utf8 source) p.offset, ⟨p.depth, found⟩) := by
    refine h.reach_eq _ found ?_
    rwa [List.length_cons, Nat.add_sub_cancel, List.drop_succ_cons, Lexer.drop_takeWhile_length]
  rw [wordStep?, hquote, hbytes, hsplit.restAt.slice?, ← hbytes, pythonWord]
  cases hrest : r.dropWhile isWordChar with
  | nil => exact congrArg some hplain.symm
  | cons q rest =>
      rw [hrest] at hsplit hword
      rw [Option.bind_some, List.head?_cons, Option.any_some]
      by_cases hmark :
          (isQuote q && stringMarks.contains (lower (c :: r.takeWhile isWordChar))) = true
      · rw [if_pos hmark]
        dsimp only
        rw [if_pos hmark, hbytes, hword]
        exact stringStep?_eq (Bool.and_eq_true_iff.1 hmark).1 hsplit found
      · rw [if_neg hmark]
        dsimp only
        rw [if_neg hmark, hplain]

theorem pythonStepAt?_eq {c : Char} {r : Text} (h : p.At source (c :: r))
    (found : List Occurrence) :
    pythonStepAt? source p.offset ⟨p.depth, found⟩ =
      some (p.reach (c :: r) (pythonStep p c r) found) := by
  obtain ⟨b, hb, hhead⟩ := exists_firstByte c r
  have htest {q : Char → Bool} (hq : Agrees (fun b => q (Char.ofUInt8 b)) q) :
      q (Char.ofUInt8 b) = q c := hq c b hb
  have hchar {w : Char} (hw : w.utf8Size = 1) : (Char.ofUInt8 b == w) = (c == w) :=
    htest (q := (· == w)) (agrees_of_single fun _ => utf8Size_of_beq hw)
  rw [pythonStepAt?, h.restAt.getElem?_utf8, hhead, pythonStep]
  simp only [Option.bind_some, htest agrees_isWordChar, htest agrees_isQuote, hchar (w := '#') rfl,
    hchar (w := '(') rfl, hchar (w := '[') rfl, hchar (w := openBrace) rfl, hchar (w := ')') rfl,
    hchar (w := ']') rfl, hchar (w := closeBrace) rfl]
  by_cases hcomment : (c == '#') = true
  · rw [if_pos hcomment, if_pos hcomment,
      lineEnd_reach (by rw [beq_iff_eq.1 hcomment]; decide) h]
  rw [if_neg hcomment, if_neg hcomment]
  by_cases hquote : isQuote c = true
  · rw [if_pos hquote, if_pos hquote]
    exact stringStep?_eq hquote (show p.At source ([] ++ c :: r) from h) found
  rw [if_neg hquote, if_neg hquote]
  by_cases hopen : (c == '(' || c == '[' || c == openBrace) = true
  · have hsize : c.utf8Size = 1 := by
      simp only [Bool.or_eq_true, beq_iff_eq] at hopen
      rcases hopen with (rfl | rfl) | rfl <;> rfl
    rw [if_pos hopen, if_pos hopen, reach_first hsize]
  rw [if_neg hopen, if_neg hopen]
  by_cases hclose : (c == ')' || c == ']' || c == closeBrace) = true
  · have hsize : c.utf8Size = 1 := by
      simp only [Bool.or_eq_true, beq_iff_eq] at hclose
      rcases hclose with (rfl | rfl) | rfl <;> rfl
    rw [if_pos hclose, if_pos hclose, reach_first hsize]
  rw [if_neg hclose, if_neg hclose]
  by_cases hword : isWordChar c = true
  · rw [if_pos hword, if_pos hword]
    exact wordStep?_eq hword h found
  · rw [if_neg hword, if_neg hword, reach_first (Decidable.not_not.1 (mt isWordChar_of_wide hword))]

theorem blockCommentStep?_eq {r : Text} (h : p.At source ('/' :: '*' :: r))
    (found : List Occurrence) : blockCommentStep? source ⟨p.depth, found⟩ p.offset =
      some (p.reach ('/' :: '*' :: r)
        { length := 1 + Lexer.blockCommentTail r, depth := p.depth } found) := by
  have hrest : RestAt source (p.offset + 2) r := (h.restAt.next rfl).next rfl
  have hend := findEnd_utf8 (w := '*') (p := ['/']) (forall_utf8Size rfl) (RestAt.start r)
  rw [← Lexer.blockCommentTail_eq] at hend
  have hreach := h.reach_eq p.depth found (n := 1 + Lexer.blockCommentTail r)
    (by rw [Nat.add_comm 1]; exact hrest.trans hend)
  rw [hreach, blockCommentStep?, hrest.slice?_bytes, Option.map_some, findEnd]
  cases find? (['*', '/'].map Char.toUInt8) (utf8 r) 0 with
  | some i => rfl
  | none =>
      dsimp only
      rw [length_utf8, length_utf8, hrest.add_bytes]

theorem quotedStep?_eq {q : Char} {r : Text} (hq : isQuote q = true) (h : p.At source (q :: r))
    (found : List Occurrence) : quotedStep? source ⟨p.depth, found⟩ p.offset =
      some (p.reach (q :: r) (javaScriptStep p q r) found) := by
  obtain ⟨body, hbody⟩ := QuoteStyle.exists_body false r hq
  have hslash : ¬(q == '/') = true := by
    rcases isQuote_iff.1 hq with rfl | rfl <;> decide
  rw [quotedStep?, locateAt?_utf8 false hq h.restAt, javaScriptStep]
  simp only [hslash, Bool.false_and, Bool.false_eq_true, if_false, hq, if_true]
  rcases QuoteStyle.locate?_cases false r hq hbody with ⟨hnone, -⟩ | ⟨u, z, rfl, hsome, -⟩
  · rw [hnone]
    exact congrArg some (reach_first (isQuote_cases hq).1 p p.depth found).symm
  · generalize QuoteStyle.opened false q r = style at *
    have hsplit : q :: r = [] ++ (style.delimiter ++ (u ++ (style.delimiter ++ z))) := hbody
    rw [hsome, h.before]
    rw [hsplit] at h
    have hrecord := record?_eq (l := ⟨style, u⟩) h (Binding.identifierBack? .javaScript p.back)
      found
    rw [← hsplit, List.length_nil, Nat.zero_add] at hrecord
    dsimp only [Option.map_some, Option.bind_eq_bind, Option.bind_some]
    rw [Binding.boundName?_reverse, Option.bind_some]
    exact hrecord

theorem templateStep?_eq {r : Text} (h : p.At source (backtick :: r))
    (found : List Occurrence) : templateStep? source ⟨p.depth, found⟩ p.offset =
      some (p.reach (backtick :: r) (javaScriptStep p backtick r) found) := by
  have hrest : RestAt source (p.offset + 1) r := h.restAt.next rfl
  rw [templateStep?, templateEnd?_utf8 hrest, javaScriptStep_backtick, locateTemplate?]
  cases hend : Extent.template? r with
  | none =>
      have hall : RestAt source source.bytes [] := by
        rw [← hrest.add_bytes]
        exact RestAt.append (by rwa [List.append_nil])
      rw [Option.map_none, Option.map_none]
      dsimp only
      rw [h.reach_eq _ found (by rwa [List.drop_succ_cons, List.drop_length]), ← length_utf8]
      rfl
  | some n =>
      obtain ⟨b, hb⟩ := Extent.template?_eq_some hend
      have hsplit : backtick :: r = [] ++ (QuoteStyle.template.delimiter ++
          (r.take n ++ (QuoteStyle.template.delimiter ++ b))) := congrArg (backtick :: ·) hb
      rw [h.before]
      rw [hsplit] at h
      have hrecord := record?_eq (l := ⟨.template, r.take n⟩) h
        ((Binding.tagBack? p.back).orElse fun _ => Binding.identifierBack? .javaScript p.back) found
      rw [← hsplit, List.length_nil, Nat.zero_add] at hrecord
      dsimp only [Option.map_some, Option.bind_eq_bind, Option.bind_some]
      rw [← hrecord, Binding.tagName?_reverse, Binding.boundName?_reverse]
      cases Binding.tagBack? p.back <;> rfl

theorem javaScriptStepAt?_eq {c : Char} {r : Text} (hc : c.utf8Size = 1)
    (h : p.At source (c :: r)) (found : List Occurrence) :
    javaScriptStepAt? source p.offset ⟨p.depth, found⟩ =
      some (p.reach (c :: r) (javaScriptStep p c r) found) := by
  have hbyte : (utf8 source)[p.offset]? = some c.toUInt8 := (h.restAt.byteAt_iff hc).2 rfl
  have hnext {w : Char} (hw : w.utf8Size = 1) :
      ((utf8 source)[p.offset + 1]? == some w.toUInt8) = (r.head? == some w) := by
    rw [Bool.eq_iff_iff, beq_iff_eq, beq_iff_eq, (h.restAt.next hc).byteAt_iff hw]
  rw [javaScriptStepAt?, hbyte, Option.bind_some, ofUInt8_toUInt8 hc]
  dsimp only
  rw [hnext rfl, hnext rfl]
  by_cases hline : (c == '/' && r.head? == some '/') = true
  · have hslash := beq_iff_eq.1 (Bool.and_eq_true_iff.1 hline).1
    rw [javaScriptStep, if_pos hline, if_pos hline, lineEnd_reach (by rw [hslash]; decide) h]
  by_cases hblock : (c == '/' && r.head? == some '*') = true
  · obtain ⟨hslash, hstar⟩ := Bool.and_eq_true_iff.1 hblock
    obtain rfl := beq_iff_eq.1 hslash
    obtain ⟨r, rfl⟩ := List.head?_eq_some_iff.1 (beq_iff_eq.1 hstar)
    rw [javaScriptStep, if_neg hline, if_neg hline, if_pos hblock, if_pos hblock,
      blockCommentStep?_eq h]
    rfl
  rw [if_neg hline, if_neg hblock]
  by_cases hquote : isQuote c = true
  · rw [if_pos hquote, quotedStep?_eq hquote h]
  rw [if_neg hquote]
  by_cases htick : (c == backtick) = true
  · obtain rfl := beq_iff_eq.1 htick
    rw [if_pos htick, templateStep?_eq h]
  · rw [javaScriptStep, if_neg hline, if_neg hblock, if_neg hquote, if_neg htick, if_neg htick,
      reach_first hc]

theorem javaScriptStepAt?_idle {i : Nat} {rest : List UInt8} {b : UInt8}
    (h : (utf8 source).drop i = b :: rest)
    (hb : b ∉ ['/', singleQuote, doubleQuote, backtick].map Char.toUInt8) (s : Progress) :
    javaScriptStepAt? source i s = some (i + 1, s) := by
  have hbyte : (utf8 source)[i]? = some b := by rw [← List.head?_drop, h, List.head?_cons]
  have hother : ∀ w ∈ ['/', singleQuote, doubleQuote, backtick], Char.ofUInt8 b ≠ w := by
    intro w hw hbw
    have hsize := forall_utf8Size (s := ['/', singleQuote, doubleQuote, backtick]) rfl w hw
    exact hb (List.mem_map.2 ⟨w, hw, ((ofUInt8_eq_iff hsize).1 hbw).symm⟩)
  obtain ⟨hslash, hsingle, hdouble, htick⟩ : Char.ofUInt8 b ≠ '/' ∧ Char.ofUInt8 b ≠ singleQuote ∧
      Char.ofUInt8 b ≠ doubleQuote ∧ Char.ofUInt8 b ≠ backtick := by simpa using hother
  rw [javaScriptStepAt?, hbyte]
  simp [isQuote, hslash, hsingle, hdouble, htick]

theorem advance?_of_length_le {length i : Nat} {step : Nat → Progress → Option (Nat × Progress)}
    (h : length ≤ i) (s : Progress) : advance? length step i s = some s := by
  rw [advance?, if_neg (Nat.not_lt.2 h)]

theorem advance?_of_step {length i j : Nat} {step : Nat → Progress → Option (Nat × Progress)}
    {s s' : Progress} (hi : i < length) (hstep : step i s = some (j, s')) (hj : i < j) :
    advance? length step i s = advance? length step j s' := by
  rw [advance?, if_pos hi, hstep]
  exact if_pos hj

def Follows (source : Text) (step : Nat → Progress → Option (Nat × Progress))
    (step' : Place → Char → Text → Step) : Prop :=
  ∀ (p : Place) c r found, p.At source (c :: r) →
    advance? (utf8 source).length step p.offset ⟨p.depth, found⟩ =
      advance? (utf8 source).length step (p.reach (c :: r) (step' p c r) found).1
        (p.reach (c :: r) (step' p c r) found).2

theorem Place.lt_reach (p : Place) (c : Char) (r : Text) (x : Step) (found : List Occurrence) :
    p.offset < (p.reach (c :: r) x found).1 := by
  have hpos := c.utf8Size_pos
  simp only [Place.reach, List.take_succ_cons, bytes_cons]
  omega

theorem follows_of_step {step : Nat → Progress → Option (Nat × Progress)} {p : Place} {c : Char}
    {r : Text} {x : Step} {found : List Occurrence} (h : p.At source (c :: r))
    (hstep : step p.offset ⟨p.depth, found⟩ = some (p.reach (c :: r) x found)) :
    advance? (utf8 source).length step p.offset ⟨p.depth, found⟩ =
      advance? (utf8 source).length step (p.reach (c :: r) x found).1
        (p.reach (c :: r) x found).2 :=
  advance?_of_step h.restAt.lt_length hstep (p.lt_reach c r x found)

theorem follows_python (source : Text) : Follows source (pythonStepAt? source) pythonStep :=
  fun _ _ _ found h => follows_of_step h (pythonStepAt?_eq h found)

theorem follows_javaScript (source : Text) :
    Follows source (javaScriptStepAt? source) javaScriptStep := by
  intro p c r found h
  by_cases hc : c.utf8Size = 1
  · exact follows_of_step h (javaScriptStepAt?_eq hc h found)
  -- a wide character is one step by characters and one idle step for each of its bytes
  · have hidle : ∀ i b rest, (utf8 source).drop i = b :: rest →
        b ∉ ['/', singleQuote, doubleQuote, backtick].map Char.toUInt8 →
        advance? (utf8 source).length (javaScriptStepAt? source) i ⟨p.depth, found⟩ =
          advance? (utf8 source).length (javaScriptStepAt? source) (i + 1) ⟨p.depth, found⟩ :=
      fun i b rest hdrop hb => advance?_of_step (lt_length_of_drop hdrop)
        (javaScriptStepAt?_idle hdrop hb _) (Nat.lt_succ_self i)
    have hother : c ∉ ['/', singleQuote, doubleQuote, backtick] :=
      fun hmem => hc (forall_utf8Size rfl c hmem)
    have hstep : p.reach (c :: r) (javaScriptStep p c r) found =
        (p.offset + c.utf8Size, ⟨p.depth, found⟩) := by
      obtain ⟨hslash, hsingle, hdouble, htick⟩ : c ≠ '/' ∧ c ≠ singleQuote ∧ c ≠ doubleQuote ∧
          c ≠ backtick := by simpa using hother
      simp [Place.reach, javaScriptStep, isQuote, hslash, hsingle, hdouble, htick]
    rw [hstep]
    exact h.restAt.skip _ hidle (forall_utf8Size rfl) hother

theorem Follows.advance?_eq {step : Nat → Progress → Option (Nat × Progress)}
    {step' : Place → Char → Text → Step} (hstep : Follows source step step') {t : Text}
    (h : p.At source t) (found : List Occurrence) :
    (advance? (utf8 source).length step p.offset ⟨p.depth, found⟩).map Progress.found =
      some (found ++ steps step' p t) := by
  fun_induction steps step' p t generalizing found with
  | case1 p =>
      rw [advance?_of_length_le (Nat.le_of_eq h.restAt.eq_length.symm)]
      simp
  | case2 p c r x ih =>
      have hnext : (p.advance (c :: r.take x.length) x.depth).At source (r.drop x.length) :=
        Place.At.advance (by rwa [List.cons_append, List.take_append_drop]) x.depth
      rw [hstep p c r found h, ← List.append_assoc]
      exact ih hnext (found ++ x.found.toList)

theorem extractBytes?_eq (language : HostLanguage) (source : Text) :
    extractBytes? language source = some (extract language source) := by
  have hstart := Place.At.start source
  cases language with
  | python => exact (follows_python source).advance?_eq hstart []
  | javaScript => exact (follows_javaScript source).advance?_eq hstart []

end

end EmbeddedSql.Scan
