import EmbeddedSql.Proofs.Source.Rereading
import EmbeddedSql.Proofs.Token.Units

namespace EmbeddedSql

open Text

namespace Text

def IsBalanced (t : Text) : Prop :=
  List.count openBrace t = List.count closeBrace t ∧
    ∀ s ∈ t.inits, List.count closeBrace s ≤ List.count openBrace s

instance (t : Text) : Decidable (IsBalanced t) := inferInstanceAs (Decidable (_ ∧ _))

theorem units_cons {c : Char} (hc : c ≠ backslash) (t : Text) : units (c :: t) = [c] :: units t :=
  units_append (s := [c]) ((escapesUpToBlanks_cons hc []).1) t

theorem mem_units_backslash {t : Text} : [backslash] ∈ t.units ↔ endsUnpaired t = true := by
  fun_induction units t with
  | case1 => simp [endsUnpaired, shieldsFrom]
  | case2 c => simp [endsUnpaired, shieldsFrom, eq_comm (a := backslash)]
  | case3 d r ih =>
      rw [show endsUnpaired (backslash :: d :: r) = endsUnpaired r from
        endsUnpaired_append (s := [backslash, d]) rfl r, ← ih]
      simp
  | case4 c d r hc ih =>
      rw [(escapesUpToBlanks_cons hc (d :: r)).1, ← ih]
      simp [Ne.symm hc]

theorem occursIn_of_startsWith {s t u : Text} (h : startsWith u s = true) (hu : u <:+ t) :
    occursIn s t = true := by
  induction t with
  | nil =>
      obtain rfl := List.suffix_nil.1 hu
      rw [occursIn, List.isEmpty_iff]
      exact List.prefix_nil.1 (List.isPrefixOf_iff_prefix.1 h)
  | cons c t ih =>
      rw [occursIn, Bool.or_eq_true]
      rcases List.suffix_cons_iff.1 hu with rfl | hu
      · exact .inl h
      · exact .inr (ih hu)

end Text

namespace Lexer

theorem bracedTail_append {e : Text} {depth : Nat} (z : Text)
    (hinits : ∀ s, s <+: e → List.count closeBrace s < List.count openBrace s + depth)
    (htotal : List.count openBrace e + depth = List.count closeBrace e + 1) :
    bracedTail depth (e ++ closeBrace :: z) = e.length + 1 := by
  have hne : closeBrace ≠ openBrace := by decide
  induction e generalizing depth with
  | nil =>
      have hdepth : depth = 1 := by simpa using htotal
      simp [bracedTail, hdepth, hne]
  | cons c e ih =>
      have hinner (s : Text) (hs : s <+: e) := hinits (c :: s) (List.cons_prefix_cons.2 ⟨rfl, hs⟩)
      rw [List.cons_append, bracedTail, List.length_cons]
      by_cases hopen : c = openBrace
      · subst hopen
        simp only [List.count_cons_self, List.count_cons_of_ne hne.symm] at hinner htotal
        have hrest : bracedTail (depth + 1) (e ++ closeBrace :: z) = e.length + 1 :=
          ih (fun s hs => by have := hinner s hs; omega) (by omega)
        simp [hrest, Nat.add_comm]
      by_cases hclose : c = closeBrace
      · subst hclose
        simp only [List.count_cons_self, List.count_cons_of_ne hne] at hinner htotal
        have hdepth : ¬depth ≤ 1 := by
          have hfirst := hinner [] List.nil_prefix
          simp only [List.count_nil] at hfirst
          omega
        have hrest : bracedTail (depth - 1) (e ++ closeBrace :: z) = e.length + 1 :=
          ih (fun s hs => by have := hinner s hs; omega) (by omega)
        simp [hne, hdepth, hrest, Nat.add_comm]
      · simp only [List.count_cons_of_ne hopen, List.count_cons_of_ne hclose] at hinner htotal
        simp [hopen, hclose, ih hinner htotal, Nat.add_comm]

theorem bracedTail_balanced {e : Text} (he : IsBalanced e) (z : Text) :
    bracedTail 1 (e ++ [closeBrace] ++ z) = (e ++ [closeBrace]).length := by
  have hinits (s : Text) (hs : s <+: e) :
      List.count closeBrace s < List.count openBrace s + 1 :=
    Nat.lt_succ_of_le (he.2 s ((List.mem_inits _ _).2 hs))
  rw [List.append_assoc, List.length_append]
  exact bracedTail_append z hinits (by rw [he.1])

end Lexer

namespace QuoteStyle

/-- The texts that may stand in a literal: every backslash has a character after it; no unit begins
the delimiter or, on one line, is a line break; a quote never touches the delimiter behind it; and
the braces of every substitution are balanced. -/
structure IsContent (style : QuoteStyle) (t : Text) : Prop where
  paired : [backslash] ∉ t.units
  undelimited : ∀ us ∈ t.units.tails, startsWith us.flatten style.delimiter = false
  unbroken : style.isBlock = false → ['\n'] ∉ t.units
  unquoted : style.isTriple = true → t.units.getLast? ≠ some [style.quote]
  balanced : style = .template → ∀ us ∈ t.units.tails,
    startsWith us.flatten ['$', openBrace] = true →
      ∃ e ∈ (us.flatten.drop 2).inits, IsBalanced e ∧ e ++ [closeBrace] <+: us.flatten.drop 2

instance (style : QuoteStyle) (t : Text) : Decidable (style.IsContent t) :=
  decidable_of_iff
    ([backslash] ∉ t.units ∧
      (∀ us ∈ t.units.tails, startsWith us.flatten style.delimiter = false) ∧
      (style.isBlock = false → ['\n'] ∉ t.units) ∧
      (style.isTriple = true → t.units.getLast? ≠ some [style.quote]) ∧
      (style = .template → ∀ us ∈ t.units.tails,
        startsWith us.flatten ['$', openBrace] = true →
          ∃ e ∈ (us.flatten.drop 2).inits, IsBalanced e ∧
            e ++ [closeBrace] <+: us.flatten.drop 2))
    ⟨fun ⟨h₁, h₂, h₃, h₄, h₅⟩ => ⟨h₁, h₂, h₃, h₄, h₅⟩,
      fun ⟨h₁, h₂, h₃, h₄, h₅⟩ => ⟨h₁, h₂, h₃, h₄, h₅⟩⟩

variable {style : QuoteStyle} {t : Text}

namespace IsContent

theorem behind {s : Text} (h : style.IsContent (s ++ t)) (hs : endsUnpaired s = false) :
    style.IsContent t := by
  have hunits := units_append hs t
  have hsuffix {us : List Text} (hus : us ∈ t.units.tails) : us ∈ (s ++ t).units.tails := by
    rw [hunits]
    exact (List.mem_tails _ _).2 (((List.mem_tails _ _).1 hus).trans (List.suffix_append _ _))
  have hmem {u : Text} (hu : u ∈ t.units) : u ∈ (s ++ t).units := by
    rw [hunits]
    exact List.mem_append_right _ hu
  refine ⟨fun hu => h.paired (hmem hu), fun us hus => h.undelimited us (hsuffix hus),
    fun hblock hu => h.unbroken hblock (hmem hu), fun htriple hlast => ?_,
    fun htemplate us hus => h.balanced htemplate us (hsuffix hus)⟩
  refine h.unquoted htriple ?_
  rw [hunits, List.getLast?_append, hlast]
  rfl

theorem startsWith_delimiter (h : style.IsContent t) :
    startsWith t style.delimiter = false := by
  have hwhole := h.undelimited t.units ((List.mem_tails _ _).2 List.suffix_rfl)
  rwa [units_flatten] at hwhole

theorem ne_quote {c : Char} (h : style.IsContent (c :: t)) (hstyle : style.isTriple = false) :
    c ≠ style.quote := by
  rintro rfl
  have hstart := h.startsWith_delimiter
  simp [delimiter, hstyle, startsWith] at hstart

theorem unitwise {motive : Text → Prop} (nil : motive [])
    (escape : ∀ c r, motive r → motive (backslash :: c :: r))
    (plain : ∀ c r, style.IsContent (c :: r) → c ≠ backslash → motive r → motive (c :: r))
    (h : style.IsContent t) : motive t := by
  induction hn : t.length using Nat.strongRecOn generalizing t with
  | _ n ih =>
      subst hn
      cases t with
      | nil => exact nil
      | cons c r =>
          by_cases hc : c = backslash
          · subst hc
            cases r with
            | nil => exact absurd List.mem_cons_self h.paired
            | cons d r =>
                have hr : style.IsContent r := h.behind (s := [backslash, d]) rfl
                exact escape d r (ih r.length (by simp only [List.length_cons]; omega) hr rfl)
          · have hr : style.IsContent r :=
              h.behind (s := [c]) (escapesUpToBlanks_cons hc []).1
            exact plain c r h hc (ih r.length (by simp) hr rfl)

end IsContent

theorem line?_content (hstyle : style.isBlock = false) (h : style.IsContent t) (z : Text) :
    Extent.line? style.quote (t ++ style.quote :: z) = some t.length := by
  obtain ⟨hslash, hbreak, -⟩ := style.quote_special
  have htriple : style.isTriple = false := by
    cases style <;> first | rfl | cases hstyle
  refine h.unitwise (motive := fun t => Extent.line? style.quote (t ++ style.quote :: z) =
    some t.length) ?_ ?_ ?_
  · cases z <;> simp [Extent.line?, hslash, hbreak]
  · intro c r ih
    simp [Extent.line?, ih]
  · intro c r hcontent hc ih
    have hline : c ≠ '\n' := by
      rintro rfl
      refine hcontent.unbroken hstyle ?_
      rw [units_cons hc]
      exact List.mem_cons_self
    obtain ⟨d, r', hr⟩ := List.exists_cons_of_ne_nil (l := r ++ style.quote :: z) (by simp)
    rw [List.cons_append, hr, Extent.line?, ← hr, ih]
    simp [hc, hline, hcontent.ne_quote htriple]

theorem triple?_content (hstyle : style.isTriple = true) (h : style.IsContent t) (z : Text) :
    Extent.triple? style.quote (t ++ (style.delimiter ++ z)) = some t.length := by
  have hslash := style.quote_special.1
  have hdelimiter : style.delimiter = [style.quote, style.quote, style.quote] := by
    simp [delimiter, hstyle]
  rw [hdelimiter]
  refine h.unitwise (motive := fun t => Extent.triple? style.quote (t ++ ([style.quote, style.quote,
    style.quote] ++ z)) = some t.length) ?_ ?_ ?_
  · simp [Extent.triple?, hslash, startsWith]
  · intro c r ih
    rw [List.cons_append, List.cons_append, Extent.triple?, if_pos (beq_self_eq_true _), ih]
    rfl
  · intro c r hcontent hc ih
    -- three quotes would begin inside the content, or its last unit would be a quote
    have hstart : ¬startsWith (c :: (r ++ ([style.quote, style.quote, style.quote] ++ z)))
        [style.quote, style.quote, style.quote] = true := by
      intro hstart
      obtain ⟨b, hb⟩ := Extent.startsWith_triple.1 hstart
      obtain ⟨rfl, hr⟩ := List.cons.inj hb
      have hlast := hcontent.unquoted hstyle
      rw [units_cons hc] at hlast
      cases r with
      | nil => exact hlast rfl
      | cons d r =>
          obtain ⟨rfl, hr'⟩ := List.cons.inj hr
          cases r with
          | nil => exact hlast rfl
          | cons e r =>
              obtain rfl : e = style.quote := (List.cons.inj hr').1
              have hnone := hcontent.startsWith_delimiter
              rw [hdelimiter] at hnone
              simp [startsWith] at hnone
    obtain ⟨d, r', hr⟩ := List.exists_cons_of_ne_nil
      (l := r ++ ([style.quote, style.quote, style.quote] ++ z)) (by simp)
    rw [List.cons_append, hr, Extent.triple?, if_neg (by simpa using hc), ← hr, if_neg hstart, ih]
    rfl

theorem template?_content (h : QuoteStyle.template.IsContent t) (z : Text) :
    Extent.template? (t ++ backtick :: z) = some t.length := by
  induction t using Extent.template_induction with
  | nil => exact Extent.template?_backtick z
  | alone => exact absurd List.mem_cons_self h.paired
  | escape c r ih =>
      have hrest := ih (h.behind (s := [backslash, c]) rfl)
      rw [List.cons_append, List.cons_append, Extent.template?_escape, hrest]
      rfl
  | quote r => exact absurd rfl (h.ne_quote rfl)
  | substitution r ih =>
      have hwhole := h.balanced rfl _ ((List.mem_tails _ _).2 List.suffix_rfl)
      rw [units_flatten] at hwhole
      obtain ⟨e, -, he, y, hy⟩ := hwhole rfl
      have hr : e ++ [closeBrace] ++ y = r := hy
      subst hr
      have hends : endsUnpaired ('$' :: openBrace :: (e ++ [closeBrace])) = false :=
        endsUnpaired_of_getLast? (c := closeBrace) (by simp [List.getLast?_cons]) (by decide)
      have hrest := ih y (by simp; omega) (h.behind hends)
      have htail := Lexer.bracedTail_balanced he (y ++ backtick :: z)
      rw [List.cons_append, List.cons_append, List.append_assoc, Extent.template?_substitution,
        htail, List.drop_left, hrest]
      simp only [Option.map_some, List.length_cons, List.length_append]
      congr 1
      omega
  | plain c r hslash hquote hbrace ih =>
      have hbrace' : ¬(c = '$' ∧ (r ++ backtick :: z).head? = some openBrace) := by
        rintro ⟨hdollar, hhead⟩
        cases r with
        | nil => cases hhead
        | cons d r => exact hbrace ⟨hdollar, hhead⟩
      have hrest := ih (h.behind (s := [c]) (escapesUpToBlanks_cons hslash []).1)
      rw [List.cons_append, Extent.template?_plain hslash hquote hbrace', hrest]
      rfl

theorem IsContent.not_startsWith_quotes (hstyle : style.isTriple = false) (h : style.IsContent t)
    {z : Text} (hempty : t = [] → z.head? ≠ some style.quote) :
    startsWith (t ++ style.quote :: z) [style.quote, style.quote] = false := by
  cases t with
  | nil =>
      cases z with
      | nil => simp [startsWith]
      | cons d z =>
          have hd : d ≠ style.quote := by simpa using hempty rfl
          simp [startsWith, List.isPrefixOf, hd.symm]
  | cons c t =>
      have hc := h.ne_quote hstyle
      simp [startsWith, List.isPrefixOf, hc.symm]

theorem locate?_content {triples : Bool} {r z : Text} (h : style.IsContent t)
    (hstyle : style ≠ .template) (htriples : style.isTriple = true → triples = true)
    (hempty : triples = true → style.isTriple = false → t = [] → z.head? ≠ some style.quote)
    (hr : style.quote :: r = style.delimiter ++ (t ++ (style.delimiter ++ z))) :
    locate? triples style.quote r = some ⟨style, t⟩ := by
  cases hline : style.isTriple with
  | true =>
      have hnamed : (if style.quote == doubleQuote then tripleDouble else tripleSingle) =
          style := by
        cases style <;> first | rfl | cases hline
      have hdelimiter : style.delimiter = [style.quote, style.quote, style.quote] := by
        simp [delimiter, hline]
      obtain rfl : r = style.quote :: style.quote :: (t ++ (style.delimiter ++ z)) := by
        rw [hdelimiter] at hr ⊢
        exact (List.cons.inj hr).2
      have hopen : startsWith (style.quote :: style.quote :: (t ++ (style.delimiter ++ z)))
          [style.quote, style.quote] = true := by simp [startsWith]
      rw [locate?, htriples hline, hopen, Bool.and_self, if_pos rfl, hnamed]
      simp [triple?_content hline h z]
  | false =>
      have hblock : style.isBlock = false := (isBlock_eq hstyle).trans hline
      have hnamed : (if style.quote == doubleQuote then double else single) = style := by
        cases style <;> first | rfl | cases hblock
      obtain rfl : r = t ++ style.quote :: z := by
        rw [delimiter, hline, if_neg (by simp)] at hr
        exact (List.cons.inj hr).2
      have hopen : (triples && startsWith (t ++ style.quote :: z) [style.quote, style.quote]) =
          false := by
        cases triples with
        | false => rfl
        | true => exact h.not_startsWith_quotes hline (hempty rfl hline)
      rw [locate?, hopen, if_neg (by simp), line?_content hblock h z, hnamed]
      simp

theorem isContent_of_quotingFault? (hstyle : style.isTriple = true)
    (h : quotingFault? style t = none) : style.IsContent t := by
  have hblock : style.isBlock = true := by cases style <;> first | rfl | cases hstyle
  have hsuffix {us : List Text} (hus : us ∈ t.units.tails) : us.flatten <:+ t := by
    obtain ⟨vs, hvs⟩ := (List.mem_tails _ _).1 hus
    rw [← units_flatten t, ← hvs, List.flatten_append]
    exact List.suffix_append _ _
  refine ⟨?_, ?_, fun hline => ?_, fun _ hlast => ?_, fun htemplate => ?_⟩
  · intro hmem
    exact quotingFault?_of_backslash (getLast?_of_endsUnpaired (mem_units_backslash.1 hmem)) h
  · intro us hus
    rw [Bool.eq_false_iff]
    intro hstart
    have hoccurs := occursIn_of_startsWith hstart (hsuffix hus)
    cases style with
    | tripleSingle | tripleDouble =>
        simp only [quotingFault?, hoccurs, if_true] at h
        cases h
    | single | double | template => cases hstyle
  · rw [hblock] at hline
    cases hline
  · refine quotingFault?_of_quote hstyle ?_ h
    obtain ⟨us, hus⟩ := List.getLast?_eq_some_iff.1 hlast
    rw [← units_flatten t, hus, List.flatten_append]
    simp
  · subst htemplate
    cases hstyle

end QuoteStyle

theorem locate?_replacement (o : Occurrence) (replacement after : Text)
    (hstyle : o.style = .tripleSingle ∨ o.style = .tripleDouble)
    (h : quotingError? o replacement = none) :
    ∃ rest l, o.style.delimiter ++ (replacement ++ (o.style.delimiter ++ after)) =
        o.style.quote :: rest ∧
      locate? HostLanguage.python.triples o.style.quote rest = some l ∧
      l.style = o.style ∧ l.content = replacement ∧ rest.drop l.tail = after := by
  have htriple : o.style.isTriple = true := by rcases hstyle with hs | hs <;> rw [hs] <;> rfl
  have htemplate : o.style ≠ .template := by
    intro heq
    rw [heq] at htriple
    cases htriple
  obtain ⟨rest, hrest⟩ : ∃ rest, o.style.delimiter ++ (replacement ++
      (o.style.delimiter ++ after)) = o.style.quote :: rest := by
    simp [QuoteStyle.delimiter, htriple]
  have hcontent := QuoteStyle.isContent_of_quotingFault? htriple (Option.map_eq_none_iff.1 h)
  have hlocate : locate? HostLanguage.python.triples o.style.quote rest =
      some ⟨o.style, replacement⟩ :=
    QuoteStyle.locate?_content hcontent htemplate (fun _ => rfl)
      (fun _ hline => by rw [htriple] at hline; cases hline) hrest.symm
  refine ⟨rest, ⟨o.style, replacement⟩, hrest, hlocate, rfl, rfl, ?_⟩
  have hunmarked : o.style.quote :: rest =
      [] ++ (o.style.delimiter ++ (replacement ++ (o.style.delimiter ++ after))) := hrest.symm
  have hdrop := (Scan.take_literal hunmarked).2
  rwa [List.length_nil, Nat.zero_add] at hdrop

theorem locate?_replacement_quotes :
    let o : Occurrence := ⟨[], none, 0, 0, .tripleDouble⟩
    let replacement := "\"SELECT\" \\\"\" é, \"\"a\\é".toList
    quotingError? o replacement = none ∧
      ∃ rest l, o.style.delimiter ++ (replacement ++ (o.style.delimiter ++ "\"tail".toList)) =
          doubleQuote :: rest ∧
        locate? true doubleQuote rest = some l ∧
        l.style = .tripleDouble ∧ l.content = replacement ∧ rest.drop l.tail = "\"tail".toList := by
  intro o replacement
  have hquoting : quotingError? o replacement = none := by decide +kernel
  exact ⟨hquoting, locate?_replacement o replacement "\"tail".toList (.inr rfl) hquoting⟩

end EmbeddedSql
