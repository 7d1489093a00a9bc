import EmbeddedSql.Proofs.Literal.Refilling

namespace EmbeddedSql

open Text

namespace Scan

/-- Places with the same text before them, as far back as to the end of a literal. -/
structure Place.Like (p p' : Place) : Prop where
  depth : p'.depth = p.depth
  back : p'.back = p.back ∨ ∃ (a x x' : Text) (style : QuoteStyle),
    p.back = a ++ style.quote :: x ∧ p'.back = a ++ style.quote :: x'

theorem Place.Like.refl (p : Place) : p.Like p := ⟨rfl, .inl rfl⟩

theorem Place.Like.advance {p p' : Place} (h : p.Like p') (piece : Text) (depth : Nat) :
    (p.advance piece depth).Like (p'.advance piece depth) where
  depth := rfl
  back := by
    rcases h.back with hback | ⟨a, x, x', style, hback, hback'⟩
    · exact .inl (congrArg (piece.reverse ++ ·) hback)
    · refine .inr ⟨piece.reverse ++ a, x, x', style, ?_, ?_⟩
      · simp [Place.advance, hback]
      · simp [Place.advance, hback']

theorem Place.like_after (p p' : Place) (style : QuoteStyle) (a b : Text) (depth : Nat) :
    (p.advance (a ++ style.delimiter) depth).Like (p'.advance (b ++ style.delimiter) depth) where
  depth := rfl
  back := by
    obtain ⟨d, hd⟩ : ∃ d, style.delimiter = d ++ [style.quote] := by
      unfold QuoteStyle.delimiter
      split
      · exact ⟨[style.quote, style.quote], rfl⟩
      · exact ⟨[], rfl⟩
    refine .inr ⟨[], d.reverse ++ (a.reverse ++ p.back), d.reverse ++ (b.reverse ++ p'.back), style,
      ?_, ?_⟩
    · simp [Place.advance, hd]
    · simp [Place.advance, hd]

theorem isStatement_like {p p' : Place} (h : p.Like p') : isStatement p' = isStatement p := by
  unfold isStatement
  rw [h.depth]
  rcases h.back with hback | ⟨a, x, x', style, hback, hback'⟩
  · rw [hback]
  · rw [hback, hback']
    have hquote : style.quote ≠ '\n' ∧ style.quote ≠ '\r' ∧ isBlank style.quote = false := by
      cases style <;> decide
    have hplain {u : Text} (hu : '\n' ∉ u) : ∀ c ∈ u, decide (c ≠ '\n') = true := by
      intro c hc
      exact decide_eq_true fun heq => hu (heq ▸ hc)
    by_cases hbreak : '\n' ∈ a
    · -- the line before begins before the literal, so its last character is the same
      obtain ⟨a₁, a₂, rfl, ha₁⟩ := List.eq_append_cons_of_mem hbreak
      have hhead (x : Text) : ((('\n' :: a₂) ++ style.quote :: x).dropWhile
          fun c => c == '\n' || c == '\r').head? = ((('\n' :: a₂) ++ [style.quote]).dropWhile
          fun c => c == '\n' || c == '\r').head? := by
        rw [List.dropWhile_append, List.dropWhile_append]
        split
        · simp [hquote.1, hquote.2.1]
        · simp [List.head?_append]
      have hline (x : Text) : (a₁ ++ '\n' :: a₂ ++ style.quote :: x).takeWhile (· ≠ '\n') = a₁ ∧
          (a₁ ++ '\n' :: a₂ ++ style.quote :: x).dropWhile (· ≠ '\n') =
            ('\n' :: a₂) ++ style.quote :: x := by
        rw [List.append_assoc, List.takeWhile_append_of_pos (hplain ha₁),
          List.dropWhile_append_of_pos (hplain ha₁)]
        simp
      rw [(hline x).1, (hline x').1, (hline x).2, (hline x').2, hhead x, hhead x']
    · -- the literal ends on the same line
      have hline (x : Text) :
          ((a ++ style.quote :: x).takeWhile (· ≠ '\n')).all isBlank = false := by
        rw [List.takeWhile_append_of_pos (hplain hbreak), List.takeWhile_cons_of_pos (by
          simpa using hquote.1)]
        simp [hquote.2.2]
      rw [hline x, hline x']
      simp

section Local

variable {language : HostLanguage} {c q : Char} {r mark rest : Text}

theorem quoteAt?_local (h : quoteAt? language c r = some (mark, q, rest)) {r' rest' : Text}
    (hr' : c :: r' = mark ++ q :: rest') : quoteAt? language c r' = some (mark, q, rest') := by
  unfold quoteAt? at h ⊢
  split at h
  next hc =>
    obtain ⟨rfl, rfl, rfl⟩ : [] = mark ∧ c = q ∧ r = rest := by simpa using h
    obtain ⟨-, rfl⟩ := List.cons.inj hr'
    rw [if_pos hc]
  next hc =>
    split at h
    next hword =>
      split at h
      next q' rest₀ hrest =>
        split at h
        next hq =>
          obtain ⟨rfl, rfl, rfl⟩ : c :: r.takeWhile isWordChar = mark ∧ q' = q ∧ rest₀ = rest := by
            simpa using h
          obtain rfl : r' = r.takeWhile isWordChar ++ q' :: rest' := (List.cons.inj hr').2
          have hhead : (q' :: rest').head? = (r.dropWhile isWordChar).head? := by
            rw [hrest]
            rfl
          obtain ⟨htake, hdrop⟩ := takeWhile_refilled hhead
          rw [if_neg hc, htake, if_pos hword, hdrop]
          simp [hq]
        · cases h
      · cases h
    · cases h

end Local

structure Repeats (f : Occurrence → Text) (s s' : Step) (r' : Text) : Prop where
  length : s'.length = r'.length
  depth : s'.depth = s.depth
  found : s'.found.map (fun o => (o.style, o.text)) = s.found.map fun o => (o.style, f o)

theorem refilled_literal {language : HostLanguage} {f : Occurrence → Text} {p : Place} {c : Char}
    {r mark u z : Text} {style : QuoteStyle} {identifier : Option Text} {skip : Bool} {s : Step}
    (hsplit : c :: r = mark ++ (style.delimiter ++ (u ++ (style.delimiter ++ z))))
    (hmark : '\n' ∉ mark) (hu : style.Encloses u)
    (hs : s = { length := mark.length + Located.tail ⟨style, u⟩
                depth := p.depth
                found := if skip then none
                  else some (occurrence p mark identifier ⟨style, u⟩) })
    (hfound : ∀ o, s.found = some o → Keeps language o (f o)) :
    ∃ u', s.refilled f p (c :: r.take s.length) =
        mark ++ (style.delimiter ++ (u' ++ style.delimiter)) ∧
      style.Encloses u' ∧ (language = .python → u' = [] → u = []) ∧
      s.found.map (fun o => (o.style, f o)) = if skip then none else some (style, u') := by
  subst hs
  cases skip with
  | true => exact ⟨u, (take_literal hsplit).1, hu, fun _ h => h, rfl⟩
  | false =>
      have hkeeps := hfound _ rfl
      refine ⟨f (occurrence p mark identifier ⟨style, u⟩),
        refilled_of_finds (finds_of_occurrence hsplit hmark hu) rfl, hkeeps.encloses, ?_, rfl⟩
      intro hlanguage hnil
      by_cases hsame : f (occurrence p mark identifier ⟨style, u⟩) = u
      · rw [← hsame, hnil]
      · exact absurd hnil ((hkeeps.filled hsame).2 hlanguage)

theorem length_of_literal {c : Char} {r mark u : Text} {style : QuoteStyle}
    (h : c :: r = mark ++ (style.delimiter ++ (u ++ style.delimiter))) :
    r.length = mark.length + Located.tail ⟨style, u⟩ := by
  have hlength := congrArg List.length h
  rw [literal_length, List.length_cons] at hlength
  omega

theorem exists_cons_split {c q : Char} {r mark rest : Text} (h : c :: r = mark ++ q :: rest)
    (rest' : Text) : ∃ r', c :: r' = mark ++ q :: rest' := by
  cases mark with
  | nil => exact ⟨rest', by rw [(List.cons.inj h).1]; rfl⟩
  | cons d mark => exact ⟨mark ++ q :: rest', by rw [(List.cons.inj h).1]; rfl⟩

section Repeat

variable {language : HostLanguage} {f : Occurrence → Text} {p p' : Place} (hlike : p.Like p')
  {c q : Char} {r mark rest rest' : Text}

include hlike

theorem repeats_other (h : quoteAt? language c r = none)
    (hc : language = .javaScript → c ≠ backtick)
    (hrest' : rest'.head? = (r.drop (language.step p c r).length).head?) :
    Repeats f (language.step p c r)
      (language.step p' c (r.take (language.step p c r).length ++ rest'))
      (r.take (language.step p c r).length) := by
  rw [step_of_other h hc hlike.depth hrest']
  refine ⟨?_, rfl, ?_⟩
  · rw [List.length_take, Nat.min_eq_left (length_le_of_other h hc)]
  · rw [found_of_other h hc]
    rfl

theorem repeats_unclosed (h : quoteAt? language c r = some (mark, q, rest))
    (hlocate : locate? language.triples q rest = none)
    (hlocate' : locate? language.triples q rest' = none) :
    Repeats f (language.step p c r)
      (language.step p' c (r.take (language.step p c r).length ++ rest'))
      (r.take (language.step p c r).length) := by
  obtain ⟨-, hsplit, -⟩ := quoteAt?_split h
  obtain ⟨identifier, hstep⟩ := step_of_quote h p
  rw [literalStep, hlocate] at hstep
  obtain ⟨htake, -⟩ : c :: r.take mark.length = mark ++ [q] ∧ r.drop mark.length = rest :=
    split_cons (by simp [hsplit]) (by simp)
  have hsplit' : c :: (r.take mark.length ++ rest') = mark ++ q :: rest' := by
    rw [← List.cons_append, htake]
    simp
  obtain ⟨identifier', hstep'⟩ := step_of_quote (quoteAt?_local h hsplit') p'
  rw [literalStep, hlocate'] at hstep'
  rw [hstep, hstep']
  refine ⟨?_, hlike.depth, rfl⟩
  simpa using (congrArg List.length htake).symm

theorem repeats_literal {style : QuoteStyle} {u u' z r' : Text} {skip : Bool}
    {identifier identifier' : Option Text} {s s' : Step}
    (hwhole : c :: r = mark ++ (style.delimiter ++ (u ++ (style.delimiter ++ z))))
    (hr' : c :: r' = mark ++ (style.delimiter ++ (u' ++ style.delimiter)))
    (hs : s = { length := mark.length + Located.tail ⟨style, u⟩
                depth := p.depth
                found := if skip then none
                  else some (occurrence p mark identifier ⟨style, u⟩) })
    (hs' : s' = { length := mark.length + Located.tail ⟨style, u'⟩
                  depth := p'.depth
                  found := if skip then none
                    else some (occurrence p' mark identifier' ⟨style, u'⟩) })
    (hfound : s.found.map (fun o => (o.style, f o)) = if skip then none else some (style, u')) :
    Repeats f s s' r' ∧
      (p.advance (c :: r.take s.length) s.depth).Like (p'.advance (c :: r') s.depth) := by
  have hpiece := (take_literal hwhole).1
  subst hs hs'
  refine ⟨⟨(length_of_literal hr').symm, hlike.depth, ?_⟩, ?_⟩
  · rw [hfound]
    cases skip <;> rfl
  · rw [hr', hpiece]
    simp only [← List.append_assoc]
    exact Place.like_after p p' style _ _ _

theorem repeats_closed (h : quoteAt? language c r = some (mark, q, rest)) {l : Located}
    (hlocate : locate? language.triples q rest = some l)
    (hfound : ∀ o, (language.step p c r).found = some o → Unnested o ∧ Keeps language o (f o))
    (hrest' : rest'.head? = (r.drop (language.step p c r).length).head?) :
    ∃ r', (language.step p c r).refilled f p (c :: r.take (language.step p c r).length) = c :: r' ∧
      Repeats f (language.step p c r) (language.step p' c (r' ++ rest')) r' ∧
      (p.advance (c :: r.take (language.step p c r).length) (language.step p c r).depth).Like
        (p'.advance (c :: r') (language.step p c r).depth) := by
  obtain ⟨hq, hsplit, hmark⟩ := quoteAt?_split h
  obtain ⟨identifier, hstep⟩ := step_of_quote h p
  obtain ⟨body, hbody⟩ := QuoteStyle.exists_body language.triples rest hq
  rcases QuoteStyle.locate?_cases language.triples rest hq hbody with
    ⟨hnone, -⟩ | ⟨u, z, rfl, hsome, hu⟩
  · rw [hlocate] at hnone
    cases hnone
  generalize hopen : QuoteStyle.opened language.triples q rest = style at *
  rw [literalStep, hsome] at hstep
  obtain rfl : ⟨style, u⟩ = l := Option.some.inj (hsome.symm.trans hlocate)
  have hlines : '\n' ∉ mark := fun hbreak => absurd (hmark _ hbreak) (by decide)
  have hwhole := hbody ▸ hsplit
  obtain ⟨u', hrefilled, hu', hempty, hfoundMap⟩ := refilled_literal hwhole hlines hu hstep
    fun o ho => (hfound o ho).2
  have hz : rest'.head? = z.head? := by
    rw [hrest', hstep, (take_literal hwhole).2]
  obtain ⟨d, hd⟩ : ∃ d, style.delimiter = q :: d := by
    obtain ⟨d, ds, hd⟩ := List.exists_cons_of_length_pos (delimiter_length_pos style)
    rw [hd] at hbody
    exact ⟨ds, by rw [hd, (List.cons.inj hbody).1]⟩
  have hinner : q :: (d ++ (u' ++ (style.delimiter ++ rest'))) =
      style.delimiter ++ (u' ++ (style.delimiter ++ rest')) := by
    rw [← List.cons_append, ← hd]
  obtain ⟨r', hr'⟩ := exists_cons_split hsplit (d ++ (u' ++ style.delimiter))
  rw [← List.cons_append, ← hd] at hr'
  have hsplit' : c :: (r' ++ rest') = mark ++ q :: (d ++ (u' ++ (style.delimiter ++ rest'))) := by
    rw [hinner, ← List.cons_append, hr']
    simp
  have hpython (h : language.triples = true) : language = .python := by
    cases language with
    | python => rfl
    | javaScript => cases h
  have hopen' := QuoteStyle.opened_eq hq hopen hbody hinner hu' (fun h => hempty (hpython h)) hz
  have hlocate' := QuoteStyle.locate?_of_encloses hq hopen' hinner hu'
  obtain ⟨identifier', hstep'⟩ := step_of_quote (quoteAt?_local h hsplit') p'
  rw [literalStep, hlocate'] at hstep'
  have hskips : skips language p' mark = skips language p mark := by
    rw [skips, skips, isStatement_like hlike]
  rw [hskips] at hstep'
  exact ⟨r', hrefilled.trans hr'.symm, repeats_literal hlike hwhole hr' hstep hstep' hfoundMap⟩

theorem repeats_backtick
    (hfound : ∀ o, (HostLanguage.javaScript.step p backtick r).found = some o →
      Unnested o ∧ Keeps .javaScript o (f o))
    (hrest' : rest'.head? =
      (r.drop (HostLanguage.javaScript.step p backtick r).length).head?) :
    ∃ r', (HostLanguage.javaScript.step p backtick r).refilled f p
        (backtick :: r.take (HostLanguage.javaScript.step p backtick r).length) = backtick :: r' ∧
      Repeats f (HostLanguage.javaScript.step p backtick r)
        (HostLanguage.javaScript.step p' backtick (r' ++ rest')) r' ∧
      (p.advance (backtick :: r.take (HostLanguage.javaScript.step p backtick r).length)
        (HostLanguage.javaScript.step p backtick r).depth).Like
        (p'.advance (backtick :: r') (HostLanguage.javaScript.step p backtick r).depth) := by
  rcases step_backtick p r with ⟨hnone, hstep⟩ | ⟨l, identifier, hsome, hstep⟩
  · rw [hstep] at hrest' ⊢
    dsimp only at hrest' ⊢
    rw [List.drop_length] at hrest'
    rw [List.head?_eq_none_iff.1 hrest', List.take_length]
    rcases step_backtick p' r with ⟨-, hstep'⟩ | ⟨l, identifier, hsome, -⟩
    · refine ⟨r, rfl, ?_, hlike.advance _ _⟩
      rw [List.append_nil, hstep']
      exact ⟨rfl, hlike.depth, rfl⟩
    · rw [hnone] at hsome
      cases hsome
  · obtain ⟨hunnested, -⟩ := hfound _ (congrArg Step.found hstep)
    obtain ⟨n, hn, rfl⟩ := Option.map_eq_some_iff.1 hsome
    obtain ⟨b, hr, hencloses⟩ := Extent.encloses_of_template? hn (hunnested rfl)
    generalize r.take n = u at *
    have hwhole : backtick :: r = [] ++ (QuoteStyle.template.delimiter ++
        (u ++ (QuoteStyle.template.delimiter ++ b))) := congrArg (backtick :: ·) hr
    have hstep₀ : HostLanguage.javaScript.step p backtick r =
        { length := List.length ([] : Text) + Located.tail ⟨.template, u⟩
          depth := p.depth
          found := if false then none
            else some (occurrence p [] identifier ⟨.template, u⟩) } := by
      rw [hstep]
      simp
    obtain ⟨u', hrefilled, hu', -, hfoundMap⟩ := refilled_literal hwhole (by simp) hencloses hstep₀
      fun o ho => (hfound o ho).2
    have hr' : backtick :: (u' ++ [backtick]) = [] ++ (QuoteStyle.template.delimiter ++
        (u' ++ QuoteStyle.template.delimiter)) := rfl
    have hlocate' : locateTemplate? (u' ++ [backtick] ++ rest') = some ⟨.template, u'⟩ := by
      rw [List.append_assoc, List.singleton_append, locateTemplate?,
        Extent.template?_of_encloses hu', Option.map_some, List.take_left]
    rcases step_backtick p' (u' ++ [backtick] ++ rest') with
      ⟨hnone, -⟩ | ⟨l, identifier', hsome', hstep'⟩
    · rw [hlocate'] at hnone
      cases hnone
    obtain rfl := Option.some.inj (hlocate'.symm.trans hsome')
    have hstep₁ : HostLanguage.javaScript.step p' backtick (u' ++ [backtick] ++ rest') =
        { length := List.length ([] : Text) + Located.tail ⟨.template, u'⟩
          depth := p'.depth
          found := if false then none
            else some (occurrence p' [] identifier' ⟨.template, u'⟩) } := by
      rw [hstep']
      simp
    exact ⟨u' ++ [backtick], hrefilled.trans hr'.symm,
      repeats_literal hlike hwhole hr' hstep₀ hstep₁ hfoundMap⟩

end Repeat

theorem step_refill {language : HostLanguage} {f : Occurrence → Text} {p p' : Place}
    (hlike : p.Like p') {c : Char} {r rest' : Text}
    (hfound : ∀ o, (language.step p c r).found = some o → Unnested o ∧ Keeps language o (f o))
    (hrest' : rest'.head? = (r.drop (language.step p c r).length).head?)
    (hunclosed : ∀ mark q rest, quoteAt? language c r = some (mark, q, rest) →
      locate? language.triples q rest = none → locate? language.triples q rest' = none) :
    ∃ r', (language.step p c r).refilled f p (c :: r.take (language.step p c r).length) = c :: r' ∧
      Repeats f (language.step p c r) (language.step p' c (r' ++ rest')) r' ∧
      (p.advance (c :: r.take (language.step p c r).length) (language.step p c r).depth).Like
        (p'.advance (c :: r') (language.step p c r).depth) := by
  have hpassed (hnone : (language.step p c r).found = none) :
      (language.step p c r).refilled f p (c :: r.take (language.step p c r).length) =
        c :: r.take (language.step p c r).length := by
    rw [Step.refilled, hnone]
  cases hquote : quoteAt? language c r with
  | some x =>
      obtain ⟨mark, q, rest⟩ := x
      cases hlocate : locate? language.triples q rest with
      | none =>
          obtain ⟨identifier, hstep⟩ := step_of_quote hquote p
          rw [literalStep, hlocate] at hstep
          exact ⟨_, hpassed (by rw [hstep]),
            repeats_unclosed hlike hquote hlocate (hunclosed mark q rest hquote hlocate),
            hlike.advance _ _⟩
      | some l => exact repeats_closed hlike hquote hlocate hfound hrest'
  | none =>
      by_cases htick : language = .javaScript ∧ c = backtick
      · obtain ⟨rfl, rfl⟩ := htick
        exact repeats_backtick hlike hfound hrest'
      · have hc (h : language = .javaScript) : c ≠ backtick := fun hc => htick ⟨h, hc⟩
        exact ⟨_, hpassed (found_of_other hquote hc), repeats_other hlike hquote hc hrest',
          hlike.advance _ _⟩

theorem stray?_of_quote {language : HostLanguage} {c q : Char} {r mark rest : Text}
    (h : quoteAt? language c r = some (mark, q, rest)) (p : Place) {n : Nat}
    (hn : (if language.triples && startsWith rest [q, q] then none
      else Extent.lineBreak? q rest) = some n) :
    stray? language p c r = some ⟨q, p.advance (mark ++ [q]) p.depth, rest,
      p.offset + bytes (mark ++ q :: rest.take n)⟩ := by
  rw [stray?, h, Option.bind_some]
  dsimp only
  split at hn
  · cases hn
  next hopen => rw [if_neg hopen, hn, Option.map_some]

theorem locate?_refill_step {language : HostLanguage} {f : Occurrence → Text} {p : Place}
    {c q : Char} {r mark rest : Text} {after : Place}
    (hafter : after = p.advance (c :: r.take (language.step p c r).length)
      (language.step p c r).depth)
    (ht : ∀ o ∈ steps language.step after (r.drop (language.step p c r).length),
      Unnested o ∧ Keeps language o (f o))
    (hstray : ∀ x ∈ stray? language p c r, ∀ o ∈ steps language.step after
      (r.drop (language.step p c r).length), f o ≠ o.text →
        o.start ≤ x.lineBreak ∧ x.lineBreak < o.stop → x.StaysOpen language f)
    (hquote : quoteAt? language c r = some (mark, q, rest))
    (hlocate : locate? language.triples q rest = none) :
    locate? language.triples q
      (refill language f after (r.drop (language.step p c r).length)) = none := by
  obtain ⟨hq, hsplit, -⟩ := quoteAt?_split hquote
  obtain ⟨identifier, hstep⟩ := step_of_quote hquote p
  rw [literalStep, hlocate] at hstep
  obtain ⟨hpiece, hdrop⟩ : c :: r.take mark.length = mark ++ [q] ∧ r.drop mark.length = rest :=
    split_cons (by simp [hsplit]) (by simp)
  rw [hstep] at hafter ht hstray ⊢
  dsimp only at hafter ht hstray ⊢
  rw [hdrop] at ht hstray ⊢
  rw [hpiece] at hafter
  refine Classical.byContradiction fun hclosed => ?_
  refine hclosed (locate?_refill hq ht (fun n hn o ho hne hinside => hclosed ?_) hlocate)
  have hoffset : after.offset + bytes (rest.take n) =
      p.offset + bytes (mark ++ q :: rest.take n) := by
    rw [hafter, Place.advance]
    simp [Nat.add_assoc]
  rw [hoffset] at hinside
  have hopen := hstray _ (stray?_of_quote hquote p hn) o ho hne hinside
  rwa [hafter]

theorem steps_refill {language : HostLanguage} {f : Occurrence → Text} {p p' : Place} {t : Text}
    (hlike : p.Like p')
    (ht : ∀ o ∈ steps language.step p t, Unnested o ∧ Keeps language o (f o))
    (hstray : ∀ x ∈ strays language p t, ∀ o ∈ steps language.step p t, f o ≠ o.text →
      o.start ≤ x.lineBreak ∧ x.lineBreak < o.stop → x.StaysOpen language f) :
    (steps language.step p' (refill language f p t)).map (fun o => (o.style, o.text)) =
      (steps language.step p t).map fun o => (o.style, f o) := by
  -- what stands before a step has been refilled too, so its place is like `p` and not the same
  fun_induction steps language.step p t generalizing p' with
  | case1 p =>
      rw [refill, steps]
      rfl
  | case2 p c r step =>
      rename_i ih
      have htail := fun o ho => ht o (List.mem_append_right step.found.toList ho)
      rw [strays] at hstray
      obtain ⟨r', hrefilled, hrepeats, hlike'⟩ := step_refill hlike
        (fun o ho => ht o (by simp [show step.found = some o from ho]))
        (head?_refill fun o ho => (htail o ho).1)
        fun mark q rest hquote hlocate => locate?_refill_step (f := f) rfl htail
          (fun x hx o ho => hstray x (List.mem_append_left _ (by simpa using hx)) o
            (List.mem_append_right _ ho)) hquote hlocate
      have hrest := ih hlike' htail fun x hx o ho =>
        hstray x (List.mem_append_right _ hx) o (List.mem_append_right _ ho)
      have hfound : (language.step p' c (r' ++ refill language f (p.advance
          (c :: r.take step.length) step.depth) (r.drop step.length))).found.toList.map
            (fun o => (o.style, o.text)) = step.found.toList.map fun o => (o.style, f o) := by
        rw [← Option.toList_map, ← Option.toList_map]
        exact congrArg Option.toList hrepeats.found
      rw [refill_cons, hrefilled, List.cons_append, steps, hrepeats.length, List.take_left,
        List.drop_left, hrepeats.depth, List.map_append, List.map_append, hfound, hrest]

end Scan

end EmbeddedSql
