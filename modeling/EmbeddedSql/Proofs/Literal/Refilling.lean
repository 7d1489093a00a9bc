import EmbeddedSql.Proofs.Literal.Stepping
import EmbeddedSql.Proofs.Source.Replacement

namespace EmbeddedSql

open Text

def Extent.lineBreak? (quote : Char) : Text → Option Nat
  | [] => none
  | c :: r =>
      if c == backslash then (lineBreak? quote (r.drop 1)).map (· + 2)
      else if c == quote then none
      else if c == '\n' then some 0
      else (lineBreak? quote r).map (· + 1)
termination_by t => t.length
decreasing_by all_goals simp; try omega

theorem Extent.lineBreak?_of_run {style : QuoteStyle} {a b : Text}
    (h : style.run (.plain 0) a = some (.plain 0)) (hstyle : style.isBlock = false) :
    lineBreak? style.quote (a ++ '\n' :: b) = some a.length := by
  induction hn : a.length using Nat.strongRecOn generalizing a with
  | _ n ih =>
  subst hn
  match a with
  | [] =>
      have hslash : ¬('\n' == backslash) = true := by decide
      have hquote : ¬('\n' == style.quote) = true := by
        simpa using style.quote_special.2.1.symm
      rw [List.nil_append, lineBreak?, if_neg hslash, if_neg hquote, if_pos (beq_self_eq_true _)]
      rfl
  | c :: a =>
      rw [List.cons_append, lineBreak?]
      by_cases hslash : c = backslash
      · subst hslash
        match a with
        | [] =>
            have hshield : style.run (.plain 0) [backslash] = some .shielded := by
              simp [QuoteStyle.run, QuoteStyle.next, QuoteStyle.nextPlain]
            rw [hshield] at h
            cases h
        | d :: a =>
            rw [QuoteStyle.run_escape] at h
            rw [if_pos (beq_self_eq_true _), List.cons_append, List.drop_succ_cons, List.drop_zero,
              ih a.length (by simp only [List.length_cons]; omega) h rfl]
            rfl
      · obtain ⟨s, hs, hrest⟩ := Option.bind_eq_some_iff.1 h
        have hquote : c ≠ style.quote := by
          rintro rfl
          have hlength : style.delimiter.length = 1 := by
            cases style <;> first | rfl | cases hstyle
          rw [QuoteStyle.next, QuoteStyle.nextPlain_quote, hlength] at hs
          cases hs
        have hbroken := QuoteStyle.ne_broken_of_run hrest (by simp)
        have htemplate : style ≠ .template := by
          rintro rfl
          cases hstyle
        obtain ⟨hbreak, rfl⟩ : c ≠ '\n' ∧ s = .plain 0 := by
          grind [QuoteStyle.next, QuoteStyle.nextPlain]
        rw [if_neg (by simpa using hslash), if_neg (by simpa using hquote),
          if_neg (by simpa using hbreak), ih a.length (by simp) hrest rfl]
        rfl

namespace Scan

structure Stray where
  quote : Char
  place : Place
  rest : Text
  lineBreak : Nat

def stray? (language : HostLanguage) (p : Place) (c : Char) (r : Text) : Option Stray :=
  (quoteAt? language c r).bind fun (mark, q, rest) =>
    if language.triples && startsWith rest [q, q] then none
    else (Extent.lineBreak? q rest).map fun n =>
      { quote := q
        place := p.advance (mark ++ [q]) p.depth
        rest := rest
        lineBreak := p.offset + bytes (mark ++ q :: rest.take n) }

def strays (language : HostLanguage) (p : Place) : Text → List Stray
  | [] => []
  | c :: r =>
      let s := language.step p c r
      (stray? language p c r).toList ++
        strays language (p.advance (c :: r.take s.length) s.depth) (r.drop s.length)
termination_by t => t.length
decreasing_by simp only [List.length_drop, List.length_cons]; omega

def Step.refilled (f : Occurrence → Text) (p : Place) (piece : Text) (s : Step) : Text :=
  match s.found with
  | none => piece
  | some o => piece.replaceBytes (o.start - p.offset) (o.stop - p.offset) (f o)

def refill (language : HostLanguage) (f : Occurrence → Text) (p : Place) : Text → Text
  | [] => []
  | c :: r =>
      let s := language.step p c r
      let piece := c :: r.take s.length
      s.refilled f p piece ++ refill language f (p.advance piece s.depth) (r.drop s.length)
termination_by t => t.length
decreasing_by simp only [List.length_drop, List.length_cons]; omega

/-- Whether the quote begins no literal once the literals behind it have been refilled. -/
def Stray.StaysOpen (language : HostLanguage) (f : Occurrence → Text) (x : Stray) : Prop :=
  locate? language.triples x.quote (refill language f x.place x.rest) = none

instance (language : HostLanguage) (f : Occurrence → Text) (x : Stray) :
    Decidable (x.StaysOpen language f) :=
  inferInstanceAs (Decidable (_ = none))

/-- A text that may take the place of what a literal holds. -/
structure Keeps (language : HostLanguage) (o : Occurrence) (u : Text) : Prop where
  encloses : o.style.Encloses u
  silent : ∀ style : QuoteStyle, style ≠ .template → o.style.quote ≠ style.quote → ∀ y,
    style.run (.plain 0) o.text = some y → y ≠ .broken → ∃ y', style.run (.plain 0) u = some y'
  filled : u ≠ o.text → o.text ≠ [] ∧ (language = .python → u ≠ [])

section Refill

variable {language : HostLanguage} {f : Occurrence → Text} {p : Place} {c : Char} {r piece : Text}
  {o : Occurrence} {mark : Text} {s : Step}

theorem refilled_of_finds (h : Finds p piece o mark) (hs : s.found = some o) :
    s.refilled f p piece = mark ++ (o.style.delimiter ++ (f o ++ o.style.delimiter)) := by
  have hstart : o.start - p.offset = (mark ++ o.style.delimiter).bytes := by
    rw [h.start]
    omega
  have hstop : o.stop - p.offset = (mark ++ o.style.delimiter).bytes + o.text.bytes := by
    rw [h.stop, h.start]
    omega
  have hpiece : piece = (mark ++ o.style.delimiter) ++ o.text ++ o.style.delimiter := by
    simp [h.piece]
  rw [Step.refilled, hs]
  dsimp only
  rw [hstart, hstop, hpiece, replaceBytes_append]
  simp

theorem refilled_of_eq (h : Finds p piece o mark) (hs : s.found = some o) (ho : f o = o.text) :
    s.refilled f p piece = piece := by
  rw [refilled_of_finds h hs, ho, h.piece]

theorem refill_cons (language : HostLanguage) (f : Occurrence → Text) (p : Place) (c : Char)
    (r : Text) : refill language f p (c :: r) =
      (language.step p c r).refilled f p (c :: r.take (language.step p c r).length) ++
        refill language f (p.advance (c :: r.take (language.step p c r).length)
          (language.step p c r).depth) (r.drop (language.step p c r).length) := by
  rw [refill]

theorem head?_refilled (h : ∀ o, s.found = some o → ∃ mark, Finds p (c :: r) o mark) :
    (s.refilled f p (c :: r)).head? = some c := by
  cases hfound : s.found with
  | none => rw [Step.refilled, hfound]; rfl
  | some o =>
      obtain ⟨mark, hfinds⟩ := h o hfound
      have hopen : o.style.delimiter.head? = some o.style.quote := by
        unfold QuoteStyle.delimiter
        split <;> rfl
      have hhead := congrArg List.head? hfinds.piece
      rw [refilled_of_finds hfinds hfound]
      rw [List.head?_append, List.head?_append, hopen] at hhead ⊢
      exact hhead.symm

theorem head?_refill {t : Text} (ht : ∀ o ∈ steps language.step p t, Unnested o) :
    (refill language f p t).head? = t.head? := by
  cases t with
  | nil => rw [refill]
  | cons c r =>
      rw [refill_cons, List.head?_append, head?_refilled]
      · rfl
      · intro o ho
        refine step_finds ho (ht o ?_)
        rw [steps, ho]
        simp

theorem exists_break {style : QuoteStyle} {s : Inside} {t : Text}
    (h : style.run s t = some .broken) (hs : s ≠ .broken) :
    ∃ a b y, t = a ++ '\n' :: b ∧ style.run s a = some y ∧ y ≠ .broken ∧
      style.next y '\n' = some .broken := by
  induction t generalizing s with
  | nil => exact absurd (Option.some.inj h) hs
  | cons c t ih =>
      obtain ⟨x, hx, hrest⟩ := Option.bind_eq_some_iff.1 h
      by_cases hbroken : x = .broken
      · subst hbroken
        have hc : c = '\n' := by
          cases s <;> grind [QuoteStyle.next, QuoteStyle.nextPlain]
        subst hc
        exact ⟨[], t, s, rfl, rfl, hs, hx⟩
      · obtain ⟨a, b, y, rfl, hy, hne, hnext⟩ := ih hrest hbroken
        exact ⟨c :: a, b, y, rfl, by rw [QuoteStyle.run_cons_some hx, hy], hne, hnext⟩

theorem exists_of_not_mem_left {front back a b : Text} {c : Char} (hc : c ∉ front)
    (h : front ++ back = a ++ c :: b) : ∃ a', a = front ++ a' ∧ back = a' ++ c :: b := by
  rcases List.append_eq_append_iff.1 h with ⟨a', rfl, hback⟩ | ⟨a', rfl, hback⟩
  · exact ⟨a', rfl, hback⟩
  · cases a' with
    | nil => exact ⟨[], by simp, hback.symm⟩
    | cons d a' =>
        obtain ⟨rfl, -⟩ := List.cons.inj hback
        simp at hc

theorem exists_of_not_mem_right {front back a b : Text} {c : Char} (hc : c ∉ back)
    (h : front ++ back = a ++ c :: b) : ∃ b', front = a ++ c :: b' := by
  rcases List.append_eq_append_iff.1 h with ⟨a', rfl, rfl⟩ | ⟨a', rfl, hback⟩
  · simp at hc
  · cases a' with
    | nil =>
        rw [List.nil_append] at hback
        simp [← hback] at hc
    | cons d a' =>
        obtain ⟨rfl, -⟩ := List.cons.inj hback
        exact ⟨a', rfl⟩

theorem Finds.break_inside (h : Finds p piece o mark) {a b : Text} (ha : piece = a ++ '\n' :: b) :
    o.start ≤ p.offset + a.bytes ∧ p.offset + a.bytes < o.stop := by
  have hdelimiter : '\n' ∉ o.style.delimiter := by
    cases o.style <;> decide
  have hfront : '\n' ∉ mark ++ o.style.delimiter := by
    simp [h.mark, hdelimiter]
  have hsplit : (mark ++ o.style.delimiter) ++ (o.text ++ o.style.delimiter) = a ++ '\n' :: b := by
    rw [← ha, h.piece, List.append_assoc]
  obtain ⟨a', rfl, hinner⟩ := exists_of_not_mem_left hfront hsplit
  obtain ⟨b', htext⟩ := exists_of_not_mem_right hdelimiter hinner
  have hpos := Char.utf8Size_pos '\n'
  rw [h.stop, h.start, htext]
  simp only [bytes_append, bytes_cons]
  omega

theorem run_refilled {style : QuoteStyle} (hstyle : style ≠ .template)
    (htriple : style.isTriple = true → language = .python) (h : Finds p piece o mark)
    (hkeeps : Keeps language o (f o)) (hfo : f o ≠ o.text) {s x : Inside} (hs : s.isFlat = true)
    (hrun : style.run s piece = some x) (hx : x ≠ .broken) :
    style.run s (mark ++ (o.style.delimiter ++ (f o ++ o.style.delimiter))) = some x ∨
      style.run s (mark ++ (o.style.delimiter ++ (f o ++ o.style.delimiter))) = some .broken := by
  rw [h.piece] at hrun
  obtain ⟨y, hy, hrest⟩ := QuoteStyle.exists_of_run_append hrun
  have hflat := QuoteStyle.run_isFlat hstyle hs hy (QuoteStyle.ne_broken_of_run hrest hx)
  have hfilled (hthree : style.isTriple = true) : o.text ≠ [] ∧ f o ≠ [] :=
    ⟨(hkeeps.filled hfo).1, (hkeeps.filled hfo).2 (htriple hthree)⟩
  rw [QuoteStyle.run_append_some hy]
  exact QuoteStyle.run_literal hstyle hflat h.encloses hkeeps.encloses (hkeeps.silent style hstyle)
    hfilled hrest hx

theorem run_step_refilled {style : QuoteStyle} (hstyle : style ≠ .template)
    (htriple : style.isTriple = true → language = .python)
    (ht : ∀ o, s.found = some o → (∃ mark, Finds p piece o mark) ∧ Keeps language o (f o))
    {x y : Inside} (hx : x.isFlat = true) (hy : style.run x piece = some y)
    (hbroken : y = .broken → ∀ o, s.found = some o → f o = o.text) :
    style.run x (s.refilled f p piece) = some y ∨
      style.run x (s.refilled f p piece) = some .broken := by
  cases hfound : s.found with
  | none => exact .inl (by rw [Step.refilled, hfound, hy])
  | some o =>
      obtain ⟨⟨mark, hfinds⟩, hkeeps⟩ := ht o hfound
      by_cases hfo : f o = o.text
      · exact .inl (by rw [refilled_of_eq hfinds hfound hfo, hy])
      · rw [refilled_of_finds hfinds hfound]
        exact run_refilled hstyle htriple hfinds hkeeps hfo hx hy
          fun hy => hfo (hbroken hy o hfound)

theorem run_refill {style : QuoteStyle} (hstyle : style ≠ .template)
    (htriple : style.isTriple = true → language = .python) {t : Text} {s x : Inside}
    (ht : ∀ o ∈ steps language.step p t, Unnested o ∧ Keeps language o (f o))
    (hs : s.isFlat = true) (h : style.run s t = some x)
    (hbreak : ∀ a b y, t = a ++ '\n' :: b → style.run s a = some y → y ≠ .broken →
      style.next y '\n' = some .broken → ∀ o ∈ steps language.step p t, f o ≠ o.text →
        ¬(o.start ≤ p.offset + a.bytes ∧ p.offset + a.bytes < o.stop)) :
    ∃ x', style.run s (refill language f p t) = some x' := by
  fun_induction steps language.step p t generalizing s with
  | case1 p => exact ⟨s, by rw [refill]; rfl⟩
  | case2 p c r step =>
      rename_i ih
      have hpiece : c :: r = (c :: r.take step.length) ++ r.drop step.length := by simp
      have hmem {o : Occurrence} (ho : step.found = some o) : o ∈ step.found.toList ++
          steps language.step (p.advance (c :: r.take step.length) step.depth)
            (r.drop step.length) := by
        simp [ho]
      have hfinds {o : Occurrence} (ho : step.found = some o) :
          ∃ mark, Finds p (c :: r.take step.length) o mark :=
        step_finds ho (ht o (hmem ho)).1
      rw [hpiece] at h
      obtain ⟨y, hy, hrest⟩ := QuoteStyle.exists_of_run_append h
      -- a piece that is broken off keeps its literal
      have hkept (hbroken : y = .broken) (o : Occurrence) (ho : step.found = some o) :
          f o = o.text := by
        subst hbroken
        by_contra hfo
        obtain ⟨a, b, z, ha, hz, hne, hnext⟩ := exists_break hy (by rintro rfl; cases hs)
        obtain ⟨mark, hinside⟩ := hfinds ho
        refine hbreak a (b ++ r.drop step.length) z ?_ hz hne hnext o (hmem ho) hfo
          (hinside.break_inside ha)
        rw [hpiece, ha, List.append_assoc, List.cons_append]
      -- the text behind the piece, from a state that is not broken off
      have htail (hbroken : y ≠ .broken) : ∃ x', style.run y (refill language f
          (p.advance (c :: r.take step.length) step.depth) (r.drop step.length)) = some x' := by
        refine ih (fun o ho => ht o (List.mem_append_right _ ho))
          (QuoteStyle.run_isFlat hstyle hs hy hbroken) hrest ?_
        intro a b z ha hz hne hnext o ho hfo
        have hinside := hbreak (c :: r.take step.length ++ a) b z
          (by rw [hpiece, ha, List.append_assoc]) (by rw [QuoteStyle.run_append_some hy, hz]) hne
          hnext o (List.mem_append_right _ ho) hfo
        rwa [bytes_append, ← Nat.add_assoc] at hinside
      rw [refill_cons]
      rcases run_step_refilled hstyle htriple
        (fun o ho => ⟨hfinds ho, (ht o (hmem ho)).2⟩) hs hy hkept with hrun | hrun
      · rw [QuoteStyle.run_append_some hrun]
        by_cases hbroken : y = .broken
        · exact ⟨.broken, by rw [hbroken, QuoteStyle.run_broken]⟩
        · exact htail hbroken
      · exact ⟨.broken, by rw [QuoteStyle.run_append_some hrun, QuoteStyle.run_broken]⟩

theorem isBlock_of_break {style : QuoteStyle} {y : Inside} (hy : y ≠ .broken)
    (hnext : style.next y '\n' = some .broken) : style.isBlock = false :=
  (QuoteStyle.mem_of_broken (QuoteStyle.run_cons_some hnext []) hy).2

theorem eq_plain_of_break {style : QuoteStyle} (hstyle : style ≠ .template) {a : Text} {y : Inside}
    (h : style.run (.plain 0) a = some y) (hy : y ≠ .broken)
    (hnext : style.next y '\n' = some .broken) : y = .plain 0 := by
  have hline := isBlock_of_break hy hnext
  have hflat := QuoteStyle.run_isFlat hstyle rfl h hy
  match y, hflat with
  | .plain 0, _ => rfl
  | .plain (k + 1), _ =>
      have hne : a ≠ [] := by
        rintro rfl
        cases h
      have htriple := (QuoteStyle.getLast?_of_plain h hne).2
      rw [← QuoteStyle.isBlock_eq hstyle, hline] at htriple
      cases htriple
  | .shielded, _ => cases hnext

theorem run_refill_tripled {q : Char} {t : Text} {s x : Inside}
    (ht : ∀ o ∈ steps HostLanguage.python.step p t, Unnested o ∧ Keeps .python o (f o))
    (hs : s.isFlat = true) (h : (QuoteStyle.tripled q).run s t = some x) :
    ∃ x', (QuoteStyle.tripled q).run s (refill .python f p t) = some x' := by
  refine run_refill (QuoteStyle.tripled_ne_template q) (fun _ => rfl) ht hs h
    fun a b y _ _ hy hnext => ?_
  have hblock := isBlock_of_break hy hnext
  rw [QuoteStyle.tripled_isBlock] at hblock
  cases hblock

theorem exists_refill_quote {q : Char} (hq : isQuote q = true) {r : Text} {x : Inside}
    (ht : ∀ o ∈ steps HostLanguage.python.step p (q :: q :: q :: r),
      Unnested o ∧ Keeps .python o (f o))
    (hx : (QuoteStyle.tripled q).run (.plain 0) (q :: r) = some x) :
    ∃ body x', refill .python f p (q :: q :: q :: r) = q :: q :: body ∧
      (QuoteStyle.tripled q).run (.plain 0) body = some x' := by
  have hnone : locate? true q (q :: q :: r) = none := by
    have hnext : (QuoteStyle.tripled q).next (.plain 0) q = some (.plain 1) := by
      have hthree := Extent.next_quote_triple (QuoteStyle.tripled_isTriple q) (k := 0) (by omega)
      rwa [QuoteStyle.tripled_quote hq] at hthree
    have hbroken : x ≠ .broken := by
      rintro rfl
      have hblock := (QuoteStyle.mem_of_broken hx (by simp)).2
      rw [QuoteStyle.tripled_isBlock] at hblock
      cases hblock
    rw [QuoteStyle.run_cons_some hnext] at hx
    obtain ⟨y, hy, -⟩ := QuoteStyle.run_lags (.plain (Nat.zero_le 1)) hx hbroken
    refine QuoteStyle.locate?_eq_none_of_run hq (QuoteStyle.opened_tripled q r) ?_ hy
    rw [QuoteStyle.tripled_delimiter hq]
    rfl
  have hquote : quoteAt? .python q (q :: q :: r) = some ([], q, q :: q :: r) := if_pos hq
  obtain ⟨identifier, hstep⟩ := step_of_quote hquote p
  have hstep' : HostLanguage.python.step p q (q :: q :: r) = { depth := p.depth } := by
    rw [hstep, literalStep, show locate? HostLanguage.python.triples q _ = none from hnone]
    rfl
  have hrest : ∀ o ∈ steps HostLanguage.python.step (p.advance [q] p.depth) (q :: q :: r),
      Unnested o ∧ Keeps .python o (f o) := by
    rw [steps, hstep'] at ht
    exact ht
  have hshield : (QuoteStyle.tripled q).run .shielded (q :: q :: r) = some x := hx
  obtain ⟨x', hx'⟩ := run_refill_tripled hrest rfl hshield
  obtain ⟨body, hbody⟩ := List.head?_eq_some_iff.1
    ((head?_refill fun o ho => (hrest o ho).1).trans rfl :
      (refill .python f (p.advance [q] p.depth) (q :: q :: r)).head? = some q)
  refine ⟨body, x', ?_, ?_⟩
  · rw [refill_cons, hstep', Step.refilled]
    exact congrArg (q :: ·) hbody
  · rw [hbody] at hx'
    exact hx'

theorem exists_refill_empty {q : Char} (hq : isQuote q = true) {r : Text} {x : Inside}
    (ht : ∀ o ∈ steps HostLanguage.python.step p (q :: q :: r), Unnested o ∧ Keeps .python o (f o))
    (hr : r.head? ≠ some q) (hx : (QuoteStyle.tripled q).run (.plain 0) r = some x) :
    ∃ body x', refill .python f p (q :: q :: r) = q :: q :: body ∧
      (QuoteStyle.tripled q).run (.plain 0) body = some x' := by
  generalize hopen : QuoteStyle.opened true q (q :: r) = style
  have hdelimiter : style.delimiter = [q] := by
    have htwo : startsWith (q :: r) [q, q] = false := by
      rw [Bool.eq_false_iff]
      intro htwo
      obtain ⟨r', hr'⟩ := List.isPrefixOf_iff_prefix.1 htwo
      exact hr (by rw [← (List.cons.inj hr').2]; rfl)
    rw [← hopen, QuoteStyle.delimiter, QuoteStyle.opened_isTriple, htwo,
      QuoteStyle.opened_quote true _ hq]
    rfl
  have hempty : style.Encloses [] := ⟨.plain 0, rfl, rfl⟩
  have hsplit : q :: q :: r = [] ++ (style.delimiter ++ ([] ++ (style.delimiter ++ r))) := by
    rw [hdelimiter]
    rfl
  have hsome : locate? true q (q :: r) = some ⟨style, []⟩ :=
    QuoteStyle.locate?_of_encloses hq hopen hsplit hempty
  have hquote : quoteAt? .python q (q :: r) = some ([], q, q :: r) := if_pos hq
  obtain ⟨identifier, hstep⟩ := step_of_quote hquote p
  rw [literalStep, show locate? HostLanguage.python.triples q _ = _ from hsome] at hstep
  obtain ⟨htake, hdrop⟩ := take_literal hsplit
  have hlength := congrArg Step.length hstep
  dsimp only at hlength
  rw [← hlength] at htake hdrop
  rw [steps] at ht
  have hpassed : (HostLanguage.python.step p q (q :: r)).refilled f p
      (q :: (q :: r).take (HostLanguage.python.step p q (q :: r)).length) = [q, q] := by
    rw [htake, hdelimiter]
    cases hfound : (HostLanguage.python.step p q (q :: r)).found with
    | none => rw [Step.refilled, hfound]; rfl
    | some o =>
        obtain ⟨hunnested, hkeeps⟩ := ht o (by simp [hfound])
        obtain ⟨mark, hfinds⟩ := step_finds hfound hunnested
        have htext : o.text = [] := by
          rw [hstep] at hfound
          dsimp only at hfound
          split at hfound
          · cases hfound
          · obtain rfl := Option.some.inj hfound
            rfl
        have hfo : f o = o.text := Classical.not_not.1 fun hne => (hkeeps.filled hne).1 htext
        rw [htake, hdelimiter] at hfinds
        exact refilled_of_eq hfinds hfound hfo
  have hrest := fun o ho => ht o (List.mem_append_right _ ho)
  rw [hdrop] at hrest
  obtain ⟨x', hx'⟩ := run_refill_tripled hrest rfl hx
  refine ⟨_, x', ?_, hx'⟩
  rw [refill_cons, hpassed, hdrop]
  rfl

section Unclosed

variable {q : Char} (hq : isQuote q = true) {t : Text}
  (ht : ∀ o ∈ steps language.step p t, Unnested o ∧ Keeps language o (f o))

include hq ht

theorem locate?_refill_line (hopen : (language.triples && startsWith t [q, q]) = false)
    (hstray : ∀ n, Extent.lineBreak? q t = some n → ∀ o ∈ steps language.step p t, f o ≠ o.text →
      ¬(o.start ≤ p.offset + bytes (t.take n) ∧ p.offset + bytes (t.take n) < o.stop))
    (h : locate? language.triples q t = none) :
    locate? language.triples q (refill language f p t) = none := by
  have hquote := QuoteStyle.opened_quote language.triples t hq
  have hstyle := QuoteStyle.opened_ne_template language.triples (q := q) t
  have htriple := (QuoteStyle.opened_isTriple language.triples (q := q) t).trans hopen
  have hdelimiter : (QuoteStyle.opened language.triples q t).delimiter = [q] := by
    rw [QuoteStyle.delimiter, htriple, if_neg (by simp), hquote]
  obtain ⟨x, hx⟩ := QuoteStyle.exists_run_of_locate?_eq_none hq
    (by rw [hdelimiter]; rfl : q :: t = _ ++ t) h
  have hhead : t.head? ≠ some q := by
    intro hhead
    obtain ⟨r, rfl⟩ := List.head?_eq_some_iff.1 hhead
    have hclosed := QuoteStyle.run_delimiter (QuoteStyle.opened language.triples q (q :: r))
      (s := .plain 0) rfl r
    rw [hdelimiter, List.singleton_append, hx] at hclosed
    cases hclosed
  obtain ⟨x', hx'⟩ := run_refill hstyle (by rw [htriple]; simp) ht rfl hx (by
    intro a b y ha hy hne hnext
    have hline := isBlock_of_break hne hnext
    obtain rfl := eq_plain_of_break hstyle hy hne hnext
    have hlast := Extent.lineBreak?_of_run (b := b) hy hline
    rw [hquote, ← ha] at hlast
    have hinside := hstray _ hlast
    rwa [show t.take a.length = a by rw [ha, List.take_left]] at hinside)
  have hopen' : (language.triples && startsWith (refill language f p t) [q, q]) = false := by
    rw [Bool.eq_false_iff]
    intro htwo
    obtain ⟨r, hr⟩ := List.isPrefixOf_iff_prefix.1 (Bool.and_eq_true_iff.1 htwo).2
    rw [← head?_refill fun o ho => (ht o ho).1, ← hr] at hhead
    exact hhead rfl
  refine QuoteStyle.locate?_eq_none_of_run hq ?_ (by rw [hdelimiter]; rfl) hx'
  rw [QuoteStyle.opened, QuoteStyle.opened, hopen, hopen']

theorem locate?_refill_triple (hopen : (language.triples && startsWith t [q, q]) = true)
    (h : locate? language.triples q t = none) :
    locate? language.triples q (refill language f p t) = none := by
  obtain ⟨htriples, hstart⟩ := Bool.and_eq_true_iff.1 hopen
  obtain ⟨r, rfl⟩ := List.isPrefixOf_iff_prefix.1 hstart
  obtain rfl : language = .python := by
    cases language with
    | python => rfl
    | javaScript => cases htriples
  have hopened (r : Text) : q :: q :: q :: r =
      (QuoteStyle.opened true q (q :: q :: r)).delimiter ++ r := by
    rw [QuoteStyle.opened_tripled, QuoteStyle.tripled_delimiter hq]
    rfl
  obtain ⟨x, hx⟩ := QuoteStyle.exists_run_of_locate?_eq_none hq (hopened r) h
  rw [QuoteStyle.opened_tripled] at hx
  have hbody : ∃ body x', refill .python f p (q :: q :: r) = q :: q :: body ∧
      (QuoteStyle.tripled q).run (.plain 0) body = some x' := by
    by_cases hthird : r.head? = some q
    · obtain ⟨r, rfl⟩ := List.head?_eq_some_iff.1 hthird
      exact exists_refill_quote hq ht hx
    · exact exists_refill_empty hq ht hthird hx
  obtain ⟨body, x', hrefill, hx'⟩ := hbody
  show locate? true q (refill .python f p (q :: q :: r)) = none
  rw [hrefill]
  refine QuoteStyle.locate?_eq_none_of_run hq (QuoteStyle.opened_tripled q body) ?_ hx'
  rw [QuoteStyle.tripled_delimiter hq]
  rfl

theorem locate?_refill (hstray : ∀ n, (if language.triples && startsWith t [q, q] then none
      else Extent.lineBreak? q t) = some n → ∀ o ∈ steps language.step p t, f o ≠ o.text →
        ¬(o.start ≤ p.offset + bytes (t.take n) ∧ p.offset + bytes (t.take n) < o.stop))
    (h : locate? language.triples q t = none) :
    locate? language.triples q (refill language f p t) = none := by
  cases hopen : language.triples && startsWith t [q, q] with
  | true => exact locate?_refill_triple hq ht hopen h
  | false =>
      rw [hopen] at hstray
      exact locate?_refill_line hq ht hopen hstray h

end Unclosed

end Refill

end Scan

end EmbeddedSql
