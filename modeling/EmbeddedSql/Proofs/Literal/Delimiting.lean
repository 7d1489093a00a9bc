import EmbeddedSql.Proofs.Scan.Extraction

namespace EmbeddedSql

open Text

namespace Scan

section Step

variable {language : HostLanguage} {p : Place} {c : Char} {r : Text} {s : Step}

structure Step.Encloses (p : Place) (c : Char) (r : Text) (s : Step) : Prop where
  length_le : s.length ≤ r.length
  found : ∀ o ∈ s.found, ∃ mark : Text,
    c :: r.take s.length = mark ++ (o.style.delimiter ++ (o.text ++ o.style.delimiter)) ∧
      o.start = p.offset + (mark ++ o.style.delimiter).bytes ∧ o.stop = o.start + o.text.bytes

theorem Step.Encloses.of_none (hle : s.length ≤ r.length) (h : s.found = none) :
    s.Encloses p c r :=
  ⟨hle, by simp [h]⟩

theorem Step.Encloses.of_literal {mark u z : Text} {style : QuoteStyle}
    (h : c :: r = mark ++ (style.delimiter ++ (u ++ (style.delimiter ++ z))))
    (hlength : s.length = mark.length + Located.tail ⟨style, u⟩)
    (hfound : ∀ o ∈ s.found, ∃ identifier, o = occurrence p mark identifier ⟨style, u⟩) :
    s.Encloses p c r := by
  constructor
  · have hwhole := congrArg List.length h
    have hliteral := literal_length style mark u
    simp only [List.length_cons, List.length_append] at hwhole hliteral
    omega
  · intro o ho
    obtain ⟨identifier, rfl⟩ := hfound o ho
    refine ⟨mark, ?_, ?_, rfl⟩
    · rw [hlength]
      exact (take_literal h).1
    · simp [occurrence, Nat.add_assoc]

theorem encloses_of_quote {mark rest : Text} {q : Char}
    (hquote : quoteAt? language c r = some (mark, q, rest)) :
    (language.step p c r).Encloses p c r := by
  obtain ⟨hq, hsplit, -⟩ := quoteAt?_split hquote
  obtain ⟨identifier, hstep⟩ := step_of_quote hquote p
  obtain ⟨body, hbody⟩ := QuoteStyle.exists_body language.triples rest hq
  rw [hstep, literalStep]
  rcases QuoteStyle.locate?_cases language.triples rest hq hbody with
    ⟨hnone, -⟩ | ⟨u, z, rfl, hsome, -⟩
  · rw [hnone]
    refine .of_none ?_ rfl
    have hlength := congrArg List.length hsplit
    simp only [List.length_cons, List.length_append] at hlength
    show mark.length ≤ r.length
    omega
  · rw [hsome]
    refine .of_literal (hbody ▸ hsplit) rfl fun o ho => ?_
    obtain ⟨-, heq⟩ := Option.ite_none_left_eq_some.1 ho
    exact ⟨identifier, (Option.some.inj heq).symm⟩

theorem encloses_of_backtick (p : Place) (r : Text) :
    (HostLanguage.javaScript.step p backtick r).Encloses p backtick r := by
  rcases step_backtick p r with ⟨-, hstep⟩ | ⟨l, identifier, hlocate, hstep⟩
  · rw [hstep]
    exact .of_none (Nat.le_refl _) rfl
  · obtain ⟨n, hn, rfl⟩ := Option.map_eq_some_iff.1 hlocate
    obtain ⟨b, hb⟩ := Extent.template?_eq_some hn
    rw [hstep]
    have hsplit : backtick :: r = [] ++ (QuoteStyle.template.delimiter ++
        (r.take n ++ (QuoteStyle.template.delimiter ++ b))) := congrArg (backtick :: ·) hb
    refine .of_literal hsplit (by simp) fun o ho => ?_
    exact ⟨identifier, (Option.some.inj ho).symm⟩

theorem step_encloses (language : HostLanguage) (p : Place) (c : Char) (r : Text) :
    (language.step p c r).Encloses p c r := by
  cases hquote : quoteAt? language c r with
  | some x => exact encloses_of_quote hquote
  | none =>
      by_cases htick : language = .javaScript ∧ c = backtick
      · obtain ⟨rfl, rfl⟩ := htick
        exact encloses_of_backtick p r
      · have hother : language = .javaScript → c ≠ backtick := fun hl hc => htick ⟨hl, hc⟩
        exact .of_none (length_le_of_other hquote hother) (found_of_other hquote hother)

end Step

theorem steps_apart {step : Place → Char → Text → Step}
    (hstep : ∀ p c r, (step p c r).Encloses p c r) (p : Place) (t : Text) :
    (∀ o ∈ steps step p t, p.offset + o.style.delimiter.bytes ≤ o.start) ∧
      (steps step p t).Pairwise fun a b =>
        a.stop + a.style.delimiter.bytes + b.style.delimiter.bytes ≤ b.start := by
  fun_induction steps step p t with
  | case1 p => exact ⟨by simp, .nil⟩
  | case2 p c r x ih =>
      obtain ⟨hbehind, hapart⟩ := ih
      have hoffset : (p.advance (c :: r.take x.length) x.depth).offset =
          p.offset + bytes (c :: r.take x.length) := rfl
      rw [hoffset] at hbehind
      cases hfound : x.found with
      | none =>
          refine ⟨fun o ho => ?_, hapart⟩
          have hle := hbehind o ho
          omega
      | some o =>
          obtain ⟨mark, hpiece, hstart, hstop⟩ := (hstep p c r).found o hfound
          have hbytes := congrArg bytes hpiece
          simp only [bytes_append] at hbytes hstart
          constructor
          · intro o' ho'
            rcases List.mem_cons.1 ho' with rfl | ho'
            · omega
            · have hle := hbehind o' ho'
              omega
          · refine List.pairwise_cons.2 ⟨fun o' ho' => ?_, hapart⟩
            have hle := hbehind o' ho'
            rw [hbytes] at hle
            omega

end Scan

structure Occurrence.Delimited (source : Text) (o : Occurrence) : Prop where
  text : source.slice? o.start o.stop = some o.text
  boundary : IsBoundary source o.start ∧ IsBoundary source o.stop
  bound : o.start ≤ o.stop ∧ o.stop ≤ source.bytes
  room : o.style.delimiter.bytes ≤ o.start
  opening : source.slice? (o.start - o.style.delimiter.bytes) o.start = some o.style.delimiter
  closing : source.slice? o.stop (o.stop + o.style.delimiter.bytes) = some o.style.delimiter

theorem delimited_of_append {source before after : Text} {o : Occurrence}
    (hsource : source =
      before ++ (o.style.delimiter ++ (o.text ++ (o.style.delimiter ++ after))))
    (hstart : o.start = before.bytes + o.style.delimiter.bytes)
    (hstop : o.stop = o.start + o.text.bytes) : o.Delimited source := by
  have htext : source.slice? o.start o.stop = some o.text := by
    apply slice?_eq_some.2
    refine ⟨before ++ o.style.delimiter, o.style.delimiter ++ after, ?_, ?_, hstop.symm⟩
    · rw [hsource]
      simp only [List.append_assoc]
    · rw [bytes_append, hstart]
  obtain ⟨hle, hbegin, hend⟩ := slice?_isSome_iff.1 (Option.isSome_of_eq_some htext)
  refine ⟨htext, ⟨hbegin, hend⟩, ⟨hle, ?_⟩, by omega, ?_, ?_⟩
  · rw [hsource, hstop, hstart]
    simp only [bytes_append]
    omega
  · apply slice?_eq_some.2
    refine ⟨before, o.text ++ (o.style.delimiter ++ after), ?_, by omega, by omega⟩
    rw [hsource, List.append_assoc]
  · apply slice?_eq_some.2
    refine ⟨before ++ o.style.delimiter ++ o.text, after, ?_, ?_, rfl⟩
    · rw [hsource]
      simp only [List.append_assoc]
    · rw [bytes_append, bytes_append, hstop, hstart]

theorem Scan.delimited_of_mem_steps {step : Place → Char → Text → Step}
    (hstep : ∀ p c r, (step p c r).Encloses p c r) {source t : Text} {p : Place} {o : Occurrence}
    (h : p.At source t) (ho : o ∈ steps step p t) : o.Delimited source := by
  fun_induction steps step p t with
  | case1 p => cases ho
  | case2 p c r x ih =>
      have hsplit : c :: r = (c :: r.take x.length) ++ r.drop x.length := by simp
      rw [hsplit] at h
      rcases List.mem_append.1 ho with hfound | hlater
      · obtain ⟨mark, hpiece, hstart, hstop⟩ := (hstep p c r).found o (Option.mem_toList.1 hfound)
        have hsource : source = (p.back.reverse ++ mark) ++ (o.style.delimiter ++ (o.text ++
            (o.style.delimiter ++ r.drop x.length))) := by
          rw [← h.1, hpiece]
          simp only [List.append_assoc]
        refine delimited_of_append hsource ?_ hstop
        rw [hstart, bytes_append, bytes_append, bytes_reverse, h.2, Nat.add_assoc]
      · exact ih (h.advance x.depth) hlater

theorem extract_delimited (language : HostLanguage) (source : Text) :
    Scan.extractBytes? language source = some (extract language source) ∧
    (∀ o ∈ extract language source, o.Delimited source) ∧
    (extract language source).Pairwise fun a b =>
      a.stop + a.style.delimiter.bytes ≤ b.start - b.style.delimiter.bytes := by
  have hstep := Scan.step_encloses language
  refine ⟨Scan.extractBytes?_eq language source, ?_, ?_⟩ <;> rw [extract_eq]
  · exact fun o => Scan.delimited_of_mem_steps hstep (Scan.Place.At.start source)
  · refine (Scan.steps_apart hstep {} source).2.imp fun {a b} hle => ?_
    omega

theorem extract_delimited_pair :
    let source := "q = \"é\"\nr = '''a'''".toList
    let first : Occurrence := ⟨['é'], some ['q'], 5, 7, .double⟩
    let second : Occurrence := ⟨['a'], some ['r'], 16, 17, .tripleSingle⟩
    extract .python source = [first, second] ∧ first.Delimited source ∧ second.Delimited source ∧
      first.stop + first.style.delimiter.bytes ≤ second.start - second.style.delimiter.bytes := by
  intro source first second
  have hextract : extract .python source = [first, second] := by decide +kernel
  obtain ⟨-, hdelimited, hapart⟩ := extract_delimited .python source
  rw [hextract] at hdelimited hapart
  obtain ⟨hfirst, hsecond⟩ := List.forall_mem_cons.1 hdelimited
  exact ⟨hextract, hfirst, hsecond second (by simp), List.rel_of_pairwise_cons hapart (by simp)⟩

end EmbeddedSql
