import EmbeddedSql.Proofs.Format.Enclosing
import EmbeddedSql.Proofs.Literal.Rescan

namespace EmbeddedSql

open Text Scan

def Revision.isApplied (r : Revision) : Bool :=
  r.changed && (quotingError? r.occurrence r.replacement).isNone

theorem Revision.final_of_isApplied {r : Revision} (h : r.isApplied = true) :
    r.final = r.replacement := if_pos h

theorem Revision.final_of_not_isApplied {r : Revision} (h : ¬r.isApplied = true) :
    r.final = r.occurrence.text := if_neg h

section Fault

variable {style : QuoteStyle} {u : Text}

theorem quotingFault?_of_backslash (h : u.getLast? = some backslash) :
    quotingFault? style u ≠ none := by
  cases style <;> simp only [quotingFault?, h] <;> grind

theorem quotingFault?_of_quote (hstyle : style.isTriple = true)
    (h : u.getLast? = some style.quote) : quotingFault? style u ≠ none := by
  have hends : (u.getLast? == some style.quote) = true := by simp [h]
  cases style with
  | tripleSingle | tripleDouble =>
      simp only [quotingFault?, hends]
      split <;> simp
  | single | double | template => cases hstyle

theorem quotingFault?_of_break (hstyle : style.isBlock = false) (h : '\n' ∈ u) :
    quotingFault? style u ≠ none := by
  have hcontains : List.contains u '\n' = true := by simpa using h
  cases style with
  | single | double =>
      simp only [quotingFault?, hcontains]
      simp
  | tripleSingle | tripleDouble | template => cases hstyle

end Fault

theorem encloses_of_quotingFault? {style : QuoteStyle} {u : Text} {x : Inside}
    (h : style.run (.plain 0) u = some x) (hbraced : ∀ d, x ≠ .braced d)
    (hfault : quotingFault? style u = none) : style.Encloses u := by
  have hne (hx : x ≠ .plain 0) : u ≠ [] := by
    rintro rfl
    exact hx (Option.some.inj h).symm
  match x with
  | .plain 0 => exact ⟨_, h, rfl⟩
  | .plain (k + 1) =>
      obtain ⟨hlast, htriple⟩ := QuoteStyle.getLast?_of_plain h (hne (by simp))
      exact absurd hfault (quotingFault?_of_quote htriple hlast)
  | .shielded =>
      have hlast := QuoteStyle.getLast?_of_shielded h (hne (by simp))
      exact absurd hfault (quotingFault?_of_backslash hlast)
  | .dollar => exact ⟨_, h, rfl⟩
  | .braced d => exact absurd rfl (hbraced d)
  | .broken =>
      obtain ⟨hbreak, hline⟩ := QuoteStyle.mem_of_broken h (by simp)
      exact absurd hfault (quotingFault?_of_break hline hbreak)

section Revise

variable {v : Vocabulary} {s : Settings} {o : Occurrence}

theorem revise_of_isApplied (h : (revise v s o).isApplied = true) :
    o.text ≠ [] ∧ quotingFault? o.style (revise v s o).replacement = none ∧
      ((revise v s o).replacement = formatText v s.layout s.scope o.text ∨
        o.style.isBlock = true ∧
          (revise v s o).replacement = '\n' :: formatText v s.layout s.scope o.text) := by
  obtain ⟨hchanged, hnone⟩ := Bool.and_eq_true_iff.1 h
  rw [revise_occurrence, Option.isNone_iff_eq_none, quotingError?, Option.map_eq_none_iff] at hnone
  refine ⟨?_, hnone, ?_⟩
  · rintro hnil
    have hidle : revise v s o = .unchanged o := by
      rw [revise, classify, hnil]
      rfl
    rw [hidle] at hchanged
    cases hchanged
  · unfold revise at hchanged ⊢
    split at hchanged
    next hsql =>
      rw [if_pos hsql]
      dsimp only
      split
      next hblock =>
        exact .inr ⟨(Bool.and_eq_true_iff.1 (Bool.and_eq_true_iff.1 hblock).1).1, rfl⟩
      · exact .inl rfl
    · cases hchanged

theorem run_break {style : QuoteStyle} (t : Text) :
    style.run (.plain 0) ('\n' :: t) =
      if style.isBlock then style.run (.plain 0) t else some .broken := by
  have hnext : style.next (.plain 0) '\n' =
      some (if style.isBlock then .plain 0 else .broken) := by
    cases style <;> rfl
  rw [QuoteStyle.run_cons_some hnext]
  split
  · rfl
  · exact QuoteStyle.run_broken t

theorem keeps_final {language : HostLanguage} (ho : o.style.Encloses o.text)
    (hfilled : language = .python → (revise v s o).isApplied = true →
      (revise v s o).replacement ≠ []) : Keeps language o (revise v s o).final := by
  by_cases h : (revise v s o).isApplied = true
  · rw [Revision.final_of_isApplied h]
    obtain ⟨htext, hfault, hreplacement⟩ := revise_of_isApplied h
    refine ⟨?_, ?_, fun _ => ⟨htext, fun hlanguage => hfilled hlanguage h⟩⟩
    · obtain ⟨x, hx, hready⟩ := ho
      have hbroken : x ≠ .broken := by
        rintro rfl
        cases hready
      obtain ⟨x', hx', hbraced⟩ := run_formatText (v := v) s.layout s.scope hx hbroken
      refine encloses_of_quotingFault? (x := x') ?_ ?_ hfault
      · rcases hreplacement with hsame | ⟨hblock, hsame⟩
        · rw [hsame, hx']
        · rw [hsame, run_break, hblock, if_pos rfl, hx']
      · rintro d rfl
        obtain ⟨e, rfl⟩ := hbraced d rfl
        cases hready
    · intro style hstyle hquote y hy hbroken
      obtain ⟨y', hy', -⟩ := run_formatText (v := v) s.layout s.scope hy hbroken
      rcases hreplacement with hsame | ⟨-, hsame⟩
      · exact ⟨y', by rw [hsame, hy']⟩
      · rw [hsame, run_break]
        split
        · exact ⟨y', hy'⟩
        · exact ⟨.broken, rfl⟩
  · rw [Revision.final_of_not_isApplied h, revise_occurrence]
    exact ⟨ho, fun _ _ _ y hy _ => ⟨y, hy⟩, fun hne => absurd rfl hne⟩

end Revise

theorem replaceAll_append (a b : List Revision) (t : Text) :
    replaceAll (a ++ b) t = replaceAll a (replaceAll b t) := List.foldr_append

theorem replaceAll_refilled {language : HostLanguage} {g : Occurrence → Revision}
    (hg : ∀ o, (g o).occurrence = o) {p : Place} {c : Char} {r u : Text} (hu : u.bytes = p.offset)
    (h : ∀ o, (language.step p c r).found = some o → Unnested o) (rest : Text) :
    replaceAll ((language.step p c r).found.toList.map g)
        (u ++ ((c :: r.take (language.step p c r).length) ++ rest)) =
      u ++ ((language.step p c r).refilled (fun o => (g o).final) p
        (c :: r.take (language.step p c r).length) ++ rest) := by
  cases hfound : (language.step p c r).found with
  | none =>
      rw [Step.refilled, hfound]
      rfl
  | some o =>
      obtain ⟨mark, hfinds⟩ := step_finds hfound (h o hfound)
      have hstart : (u ++ (mark ++ o.style.delimiter)).bytes = o.start := by
        rw [bytes_append, hu, hfinds.start]
      have hreplace := replaceBytes_append (u ++ (mark ++ o.style.delimiter)) o.text
        (o.style.delimiter ++ rest) (g o).final
      rw [hstart, ← hfinds.stop] at hreplace
      rw [refilled_of_finds hfinds hfound, hfinds.piece]
      simpa [replaceAll, hg] using hreplace

theorem replaceAll_steps {language : HostLanguage} {g : Occurrence → Revision}
    (hg : ∀ o, (g o).occurrence = o) {p : Place} {t : Text}
    (ht : ∀ o ∈ steps language.step p t, Unnested o) (u : Text) (hu : u.bytes = p.offset) :
    replaceAll ((steps language.step p t).map g) (u ++ t) =
      u ++ refill language (fun o => (g o).final) p t := by
  fun_induction steps language.step p t generalizing u with
  | case1 p => rw [refill]; rfl
  | case2 p c r step ih =>
      have hpiece : (c :: r.take step.length) ++ r.drop step.length = c :: r := by simp
      have hrest := ih (fun o ho => ht o (List.mem_append_right _ ho))
        (u ++ (c :: r.take step.length)) (by rw [bytes_append, hu]; rfl)
      rw [List.append_assoc, hpiece, List.append_assoc] at hrest
      rw [List.map_append, replaceAll_append, hrest, refill_cons]
      refine replaceAll_refilled hg hu (fun o ho => ht o (List.mem_append_left _ ?_)) _
      exact Option.mem_toList.2 ho

theorem forall_mem_steps {language : HostLanguage} {P : Occurrence → Prop}
    (h : ∀ p c r o, (language.step p c r).found = some o → P o) (p : Place) (t : Text) :
    ∀ o ∈ steps language.step p t, P o := by
  fun_induction steps language.step p t with
  | case1 p => simp
  | case2 p c r step ih =>
      intro o ho
      rcases List.mem_append.1 ho with ho | ho
      · exact h p c r o (by simpa using ho)
      · exact ih o ho

theorem encloses_of_mem_steps {language : HostLanguage} {p : Place} {t : Text}
    (ht : ∀ o ∈ steps language.step p t, Unnested o) :
    ∀ o ∈ steps language.step p t, o.style.Encloses o.text := by
  intro o ho
  refine forall_mem_steps (P := fun o => Unnested o → o.style.Encloses o.text) ?_ p t o ho (ht o ho)
  intro p c r o hfound hunnested
  obtain ⟨mark, hfinds⟩ := step_finds hfound hunnested
  exact hfinds.encloses

theorem style_ne_template {triples : Bool} {q : Char} {r : Text} {l : Located}
    (h : locate? triples q r = some l) : l.style ≠ .template := by
  unfold locate? at h
  split at h
  all_goals
    obtain ⟨n, -, rfl⟩ := Option.map_eq_some_iff.1 h
    dsimp only
    split <;> decide

theorem unnested_of_python {p : Place} {c : Char} {r : Text} {o : Occurrence}
    (h : (HostLanguage.python.step p c r).found = some o) : Unnested o := by
  intro hstyle
  cases hquote : quoteAt? .python c r with
  | some x =>
      obtain ⟨mark, q, rest⟩ := x
      obtain ⟨identifier, hstep⟩ := step_of_quote hquote p
      rw [hstep, literalStep] at h
      cases hlocate : locate? HostLanguage.python.triples q rest with
      | none =>
          rw [hlocate] at h
          cases h
      | some l =>
          rw [hlocate] at h
          dsimp only at h
          split at h
          · cases h
          · obtain rfl := Option.some.inj h
            exact absurd hstyle (style_ne_template hlocate)
  | none =>
      rw [found_of_other hquote (by simp)] at h
      cases h

theorem formatSource_extract {s : Settings} {v : Vocabulary} (hv : s.vocabulary = .ok v)
    (language : HostLanguage) (source : Text)
    (hfilled : language = .python → ∀ o ∈ extract language source,
      (revise v s o).isApplied = true → (revise v s o).replacement ≠ [])
    (hunnested : language = .javaScript → ∀ o ∈ extract language source, Unnested o)
    (hstrays : ∀ x ∈ strays language {} source, ∀ o ∈ extract language source,
      (revise v s o).isApplied = true → o.start ≤ x.lineBreak ∧ x.lineBreak < o.stop →
        x.StaysOpen language fun o => (revise v s o).final) :
    ∃ outcome, formatSource s language source = .ok outcome ∧
      outcome.revisions = (extract language source).map (revise v s) ∧
      (extract language outcome.formatted).map (fun o => (o.style, o.text)) =
        outcome.revisions.map fun r => (r.occurrence.style, r.final) := by
  rw [extract_eq] at hfilled hunnested hstrays
  have hall : ∀ o ∈ steps language.step {} source, Unnested o := by
    cases language with
    | python => exact forall_mem_steps (fun _ _ _ _ => unnested_of_python) {} source
    | javaScript => exact hunnested rfl
  have hspans : Spans 0 source
      (((extract language source).map (revise v s)).map Revision.occurrence) := by
    simpa [Function.comp_def, revise_occurrence] using extract_spans language source
  have hformatted : (formatSourceWith v s language source).formatted =
      refill language (fun o => (revise v s o).final) {} source := by
    have hrefill := replaceAll_steps (revise_occurrence v s) hall [] rfl
    rw [← extract_eq] at hrefill
    exact (splice_text hspans).trans hrefill
  have hkeeps : ∀ o ∈ steps language.step {} source,
      Unnested o ∧ Keeps language o (revise v s o).final := fun o ho =>
    ⟨hall o ho, keeps_final (encloses_of_mem_steps hall o ho) fun hlanguage =>
      hfilled hlanguage o ho⟩
  have hopen : ∀ x ∈ strays language {} source, ∀ o ∈ steps language.step {} source,
      (revise v s o).final ≠ o.text → o.start ≤ x.lineBreak ∧ x.lineBreak < o.stop →
        x.StaysOpen language fun o => (revise v s o).final := by
    intro x hx o ho hne
    refine hstrays x hx o ho (Classical.not_not.1 fun h => hne ?_)
    rw [Revision.final_of_not_isApplied h, revise_occurrence]
  refine ⟨formatSourceWith v s language source, by rw [formatSource, hv]; rfl, rfl, ?_⟩
  calc (extract language (formatSourceWith v s language source).formatted).map
        (fun o => (o.style, o.text))
    _ = (extract language source).map fun o => (o.style, (revise v s o).final) := by
        rw [hformatted, extract_eq, extract_eq, steps_refill (.refl {}) hkeeps hopen]
    _ = ((extract language source).map (revise v s)).map
          fun r => (r.occurrence.style, r.final) := by
        simp [Function.comp_def, revise_occurrence]

theorem formatSource_extract_template :
    (∃ x ∈ strays .javaScript {} "/'/; sql = `select a\nfrom t where b = ${c}`".toList,
      ∃ o ∈ extract .javaScript "/'/; sql = `select a\nfrom t where b = ${c}`".toList,
        (revise {} {} o).isApplied = true ∧ o.start ≤ x.lineBreak ∧ x.lineBreak < o.stop) ∧
    ∃ outcome,
      formatSource {} .javaScript "/'/; sql = `select a\nfrom t where b = ${c}`".toList =
        .ok outcome ∧
      outcome.revisions =
        (extract .javaScript "/'/; sql = `select a\nfrom t where b = ${c}`".toList).map
          (revise {} {}) ∧
      (extract .javaScript outcome.formatted).map (fun o => (o.style, o.text)) =
        outcome.revisions.map fun r => (r.occurrence.style, r.final) :=
  ⟨by decide +kernel, formatSource_extract rfl .javaScript _ (by decide) (by decide +kernel)
    (by decide +kernel)⟩

theorem formatSource_extract_closed :
    (∀ o ∈ extract .javaScript "/'/; sql = `select a\nfrom t where b = 'c'`".toList, Unnested o) ∧
    ∃ outcome,
      formatSource {} .javaScript "/'/; sql = `select a\nfrom t where b = 'c'`".toList =
        .ok outcome ∧
      outcome.revisions.map (fun r => (r.occurrence.style, r.final)) =
        [(.template, "SELECT a FROM t WHERE b = 'c'".toList)] ∧
      (extract .javaScript outcome.formatted).map (fun o => (o.style, o.text)) =
        [(.single, "/; sql = `SELECT a FROM t WHERE b = ".toList)] :=
  ⟨by decide +kernel, formatSourceWith {} {} .javaScript _, rfl, by decide +kernel,
    by decide +kernel⟩

end EmbeddedSql
