import EmbeddedSql.Literal.Scan

namespace EmbeddedSql

open Text

inductive Spans : Nat → Text → List Occurrence → Prop
  | nil {n : Nat} {t : Text} : Spans n t []
  | cons {n : Nat} {o : Occurrence} {os : List Occurrence} {rest : Text} (gap : Text) :
      o.start = n + gap.bytes → o.stop = o.start + o.text.bytes → Spans o.stop rest os →
      Spans n (gap ++ o.text ++ rest) (o :: os)

theorem Spans.append {n : Nat} {t : Text} {os : List Occurrence} (u : Text)
    (h : Spans (n + u.bytes) t os) : Spans n (u ++ t) os := by
  cases h with
  | nil => exact .nil
  | cons gap hstart hstop hrest =>
      rw [← List.append_assoc, ← List.append_assoc]
      exact .cons (u ++ gap) (by rw [hstart, bytes_append, Nat.add_assoc]) hstop hrest

theorem delimiter_length_pos (style : QuoteStyle) : 0 < style.delimiter.length := by
  unfold QuoteStyle.delimiter
  split <;> simp

theorem locate?_eq_some {triples : Bool} {quote : Char} {r : Text} {l : Located}
    (hquote : quote = singleQuote ∨ quote = doubleQuote) (h : locate? triples quote r = some l) :
    ∃ rest, quote :: r = l.style.delimiter ++ l.content ++ rest := by
  unfold locate? at h
  split at h
  next hopen =>
    obtain ⟨n, -, rfl⟩ := Option.map_eq_some_iff.1 h
    obtain ⟨-, hstart⟩ := Bool.and_eq_true_iff.1 hopen
    obtain ⟨body, rfl⟩ := List.isPrefixOf_iff_prefix.1 hstart
    refine ⟨body.drop n, ?_⟩
    have hdelimiter : (if quote == doubleQuote then QuoteStyle.tripleDouble
        else .tripleSingle).delimiter = [quote, quote, quote] := by
      rcases hquote with rfl | rfl <;> rfl
    rw [hdelimiter]
    simp
  · obtain ⟨n, -, rfl⟩ := Option.map_eq_some_iff.1 h
    refine ⟨r.drop n, ?_⟩
    have hdelimiter : (if quote == doubleQuote then QuoteStyle.double
        else .single).delimiter = [quote] := by
      rcases hquote with rfl | rfl <;> rfl
    rw [hdelimiter]
    simp

theorem locateTemplate?_eq_some {r : Text} {l : Located} (h : locateTemplate? r = some l) :
    ∃ rest, backtick :: r = l.style.delimiter ++ l.content ++ rest := by
  obtain ⟨n, -, rfl⟩ := Option.map_eq_some_iff.1 h
  have hdelimiter : QuoteStyle.template.delimiter = [backtick] := rfl
  exact ⟨r.drop n, by simp [hdelimiter]⟩

namespace Scan

def Step.Sound (p : Place) (t : Text) (s : Step) : Prop :=
  ∀ o ∈ s.found, ∃ lead tail : Text, t.take (s.length + 1) = lead ++ o.text ++ tail ∧
    o.start = p.offset + lead.bytes ∧ o.stop = o.start + o.text.bytes

theorem sound_of_found_none {p : Place} {t : Text} {s : Step} (h : s.found = none) :
    s.Sound p t := by
  intro o ho
  simp [h] at ho

theorem sound_occurrence {p : Place} (lead : Text) {rest : Text} {identifier : Option Text}
    {l : Located} {s : Step} (hfound : s.found = some (occurrence p lead identifier l))
    (hlength : s.length = lead.length + l.tail) :
    s.Sound p (lead ++ (l.style.delimiter ++ l.content ++ rest)) := by
  intro o ho
  obtain rfl : occurrence p lead identifier l = o := Option.some.inj (hfound.symm.trans ho)
  have hpos := delimiter_length_pos l.style
  have hle : (lead ++ l.style.delimiter ++ l.content).length ≤ s.length + 1 := by
    simp only [List.length_append, hlength, Located.tail]
    omega
  refine ⟨lead ++ l.style.delimiter, rest.take (s.length + 1 -
    (lead ++ l.style.delimiter ++ l.content).length), ?_, ?_, rfl⟩
  · rw [← List.append_assoc, ← List.append_assoc, List.take_append, List.take_of_length_le hle]
    rfl
  · simp [occurrence, Nat.add_assoc]

theorem isQuote_iff {c : Char} : isQuote c = true ↔ c = singleQuote ∨ c = doubleQuote := by
  simp [isQuote]

theorem pythonLiteral_sound (p : Place) (mark : Text) {quote : Char} (hquote : isQuote quote = true)
    (r : Text) : (pythonLiteral p mark quote r).Sound p (mark ++ quote :: r) := by
  unfold pythonLiteral
  split
  · exact sound_of_found_none rfl
  next l hl =>
    obtain ⟨rest, hrest⟩ := locate?_eq_some (isQuote_iff.1 hquote) hl
    rw [hrest]
    dsimp only
    split
    · exact sound_of_found_none rfl
    · exact sound_occurrence mark rfl rfl

theorem pythonWord_sound (p : Place) (c : Char) (r : Text) :
    (pythonWord p c r).Sound p (c :: r) := by
  have hsplit := List.takeWhile_append_dropWhile (p := isWordChar) (l := r)
  unfold pythonWord
  dsimp only
  split
  next q rest hrest =>
    rw [hrest] at hsplit
    split
    next hq =>
      have hliteral := pythonLiteral_sound p (c :: r.takeWhile isWordChar)
        (Bool.and_eq_true_iff.1 hq).1 rest
      rwa [List.cons_append, hsplit] at hliteral
    · exact sound_of_found_none rfl
  · exact sound_of_found_none rfl

theorem pythonStep_sound (p : Place) (c : Char) (r : Text) :
    (pythonStep p c r).Sound p (c :: r) := by
  unfold pythonStep
  split
  · exact sound_of_found_none rfl
  split
  next hquote => exact pythonLiteral_sound p [] hquote r
  split
  · exact sound_of_found_none rfl
  split
  · exact sound_of_found_none rfl
  split
  · exact pythonWord_sound p c r
  · exact sound_of_found_none rfl

theorem javaScriptStep_sound (p : Place) (c : Char) (r : Text) :
    (javaScriptStep p c r).Sound p (c :: r) := by
  unfold javaScriptStep
  split
  · exact sound_of_found_none rfl
  split
  · exact sound_of_found_none rfl
  split
  next hquote =>
    split
    · exact sound_of_found_none rfl
    next l hl =>
      obtain ⟨rest, hrest⟩ := locate?_eq_some (isQuote_iff.1 hquote) hl
      rw [hrest]
      exact sound_occurrence [] rfl (by simp)
  split
  next htick =>
    split
    · exact sound_of_found_none rfl
    next l hl =>
      obtain rfl := beq_iff_eq.1 htick
      obtain ⟨rest, hrest⟩ := locateTemplate?_eq_some hl
      rw [hrest]
      exact sound_occurrence [] rfl (by simp)
  · exact sound_of_found_none rfl

theorem steps_spans {step : Place → Char → Text → Step}
    (hstep : ∀ p c r, (step p c r).Sound p (c :: r)) (p : Place) (t : Text) :
    Spans p.offset t (steps step p t) := by
  fun_induction steps step p t with
  | case1 p => exact .nil
  | case2 p c r s ih =>
      have hpiece : c :: r.take s.length = (c :: r).take (s.length + 1) := rfl
      have hsplit : (c :: r.take s.length) ++ r.drop s.length = c :: r := by simp
      have hrest : Spans (p.offset + bytes (c :: r.take s.length)) (r.drop s.length)
          (steps step (p.advance (c :: r.take s.length) s.depth) (r.drop s.length)) := ih
      cases hfound : s.found with
      | none =>
          have hspans := hrest.append
          rw [hsplit] at hspans
          exact hspans
      | some o =>
          obtain ⟨lead, tail, htake, hstart, hstop⟩ := hstep p c r o hfound
          have hstops : o.stop + tail.bytes = p.offset + bytes (c :: r.take s.length) := by
            rw [hpiece, htake, hstop, hstart]
            simp only [bytes_append]
            omega
          rw [← hstops] at hrest
          rw [hpiece, htake] at hsplit
          rw [← hsplit, List.append_assoc]
          exact .cons lead hstart hstop (hrest.append tail)

end Scan

theorem extract_spans (language : HostLanguage) (source : Text) :
    Spans 0 source (extract language source) := by
  cases language with
  | python => exact Scan.steps_spans Scan.pythonStep_sound {} source
  | javaScript => exact Scan.steps_spans Scan.javaScriptStep_sound {} source

end EmbeddedSql
