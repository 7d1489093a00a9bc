import EmbeddedSql.Proofs.Literal.Inside
import EmbeddedSql.Proofs.Token.Locality

namespace EmbeddedSql

open Text

def QuoteStyle.Encloses (style : QuoteStyle) (u : Text) : Prop :=
  ∃ s, style.run (.plain 0) u = some s ∧ s.isReady = true

namespace Extent

variable {style : QuoteStyle}

open QuoteStyle

def Closes (style : QuoteStyle) (t : Text) (found : Option Nat) : Prop :=
  (found = none ∧ ∃ s, style.run (.plain 0) t = some s) ∨
    ∃ a b, t = a ++ (style.delimiter ++ b) ∧ found = some a.length ∧
      style.run (.plain 0) a = some (.plain 0)

theorem Closes.append {t : Text} {found : Option Nat} (h : Closes style t found) (front : Text)
    (hfront : style.run (.plain 0) front = some (.plain 0)) :
    Closes style (front ++ t) (found.map (· + front.length)) := by
  rcases h with ⟨rfl, s, hs⟩ | ⟨a, b, rfl, rfl, hrun⟩
  · exact .inl ⟨rfl, s, by rw [run_append_some hfront, hs]⟩
  · exact .inr ⟨front ++ a, b, by simp, by simp [Nat.add_comm],
      by rw [run_append_some hfront, hrun]⟩

theorem closes_line? (hstyle : style.isBlock = false) (t : Text) :
    Closes style t (line? style.quote t) := by
  have htemplate : style ≠ .template := by
    rintro rfl
    cases hstyle
  have hdelimiter : style.delimiter = [style.quote] := by
    cases style <;> first | rfl | cases hstyle
  fun_induction line? style.quote t with
  | case1 => exact .inl ⟨rfl, _, rfl⟩
  | case2 c hc => exact .inr ⟨[], [], by simp_all, by simp, rfl⟩
  | case3 c hc =>
      obtain ⟨s, hs⟩ := exists_nextPlain (k := 0) (by simpa using hc : c ≠ style.quote)
      exact .inl ⟨rfl, s, run_cons_some (s := .plain 0) hs []⟩
  | case4 c d r hc ih =>
      obtain rfl : c = backslash := by simpa using hc
      exact ih.append [backslash, d] (run_escape 0 d [])
  | case5 c d r hc hbreak =>
      have hnext : style.next (.plain 0) c = some .broken := by
        obtain rfl : c = '\n' := by simpa using hbreak
        have hslash : '\n' ≠ backslash := by decide
        have hquote := style.quote_special.2.1.symm
        simp [next, nextPlain, hslash, hquote, hstyle]
      exact .inl ⟨rfl, .broken, by rw [run_cons_some hnext, run_broken]⟩
  | case6 c d r hc hbreak hquote => exact .inr ⟨[], d :: r, by simp_all, by simp, rfl⟩
  | case7 c d r hc hbreak hquote ih =>
      have hnext : style.next (.plain 0) c = some (.plain 0) := by
        simp_all [next, nextPlain]
      exact ih.append [c] (run_cons_some hnext [])

theorem startsWith_triple {q : Char} {t : Text} :
    startsWith t [q, q, q] = true ↔ ∃ b, t = q :: q :: q :: b := by
  constructor
  · intro h
    obtain ⟨b, rfl⟩ := List.isPrefixOf_iff_prefix.1 h
    exact ⟨b, rfl⟩
  · rintro ⟨b, rfl⟩
    exact List.isPrefixOf_iff_prefix.2 ⟨b, rfl⟩

theorem run_forget {k : Nat} {t : Text} (ht : t ≠ []) (hhead : t.head? ≠ some style.quote) :
    style.run (.plain k) t = style.run (.plain 0) t := by
  cases t with
  | nil => exact absurd rfl ht
  | cons c t =>
      have hc : c ≠ style.quote := by simpa using hhead
      have hnext : style.next (.plain k) c = style.next (.plain 0) c := nextPlain_congr hc k 0
      rw [run, run, hnext]

theorem next_quote_triple (hstyle : style.isTriple = true) {k : Nat} (hk : k < 2) :
    style.next (.plain k) style.quote = some (.plain (k + 1)) := by
  have hlength : style.delimiter.length = 3 := by simp [delimiter, hstyle]
  show style.nextPlain k style.quote = _
  rw [nextPlain_quote, hlength, if_neg (by omega)]

theorem run_after_quote (hstyle : style.isTriple = true) {t : Text} (hnil : t ≠ [])
    (hone : t ≠ [style.quote]) (htwo : ¬ ∃ b, t = style.quote :: style.quote :: b) :
    style.run (.plain 1) t = style.run (.plain 0) t := by
  match t with
  | [] => exact absurd rfl hnil
  | c :: t =>
      by_cases hc : c = style.quote
      · subst hc
        have ht : t ≠ [] := by simpa using hone
        have hhead : t.head? ≠ some style.quote := by
          intro hhead
          obtain ⟨b, rfl⟩ := List.head?_eq_some_iff.1 hhead
          exact htwo ⟨b, rfl⟩
        rw [run_cons_some (next_quote_triple hstyle (by omega)),
          run_cons_some (next_quote_triple hstyle (by omega)), run_forget ht hhead,
          run_forget (k := 0 + 1) ht hhead]
      · exact run_forget (by simp) (by simpa using hc)

theorem exists_run_after_quote (hstyle : style.isTriple = true) {t : Text} {s : Inside}
    (htwo : ¬ ∃ b, t = style.quote :: style.quote :: b) (h : style.run (.plain 0) t = some s) :
    ∃ s', style.run (.plain 1) t = some s' := by
  by_cases hnil : t = []
  · exact ⟨.plain 1, by rw [hnil]; rfl⟩
  · by_cases hone : t = [style.quote]
    · exact ⟨.plain 2, by rw [hone, run_cons_some (next_quote_triple hstyle (by omega))]; rfl⟩
    · exact ⟨s, by rw [run_after_quote hstyle hnil hone htwo, h]⟩

theorem closes_triple? (hstyle : style.isTriple = true) (t : Text) :
    Closes style t (triple? style.quote t) := by
  have hdelimiter : style.delimiter = [style.quote, style.quote, style.quote] := by
    simp [delimiter, hstyle]
  have hother {c : Char} (hc : c ≠ backslash) (hquote : c ≠ style.quote) :
      style.next (.plain 0) c = some (.plain 0) := by
    have hblock : style.isBlock = true := by cases style <;> simp_all [isTriple, isBlock]
    have htemplate : style ≠ .template := by
      rintro rfl
      cases hstyle
    simp [next, nextPlain, hc, hquote, hblock, htemplate]
  fun_induction triple? style.quote t with
  | case1 => exact .inl ⟨rfl, _, rfl⟩
  | case2 c =>
      by_cases hquote : c = style.quote
      · subst hquote
        exact .inl ⟨rfl, _, run_cons_some (next_quote_triple hstyle (by omega)) []⟩
      · obtain ⟨s, hs⟩ := exists_nextPlain (k := 0) hquote
        exact .inl ⟨rfl, s, run_cons_some (s := .plain 0) hs []⟩
  | case3 c d r hc ih =>
      obtain rfl : c = backslash := by simpa using hc
      exact ih.append [backslash, d] (run_escape 0 d [])
  | case4 c d r hc hstart =>
      obtain ⟨b, hb⟩ := startsWith_triple.1 hstart
      exact .inr ⟨[], b, by rw [hdelimiter, hb]; rfl, by simp, rfl⟩
  | case5 c d r hc hstart ih =>
      have hslash : c ≠ backslash := by simpa using hc
      by_cases hquote : c = style.quote
      · -- a quote that does not begin the delimiter still counts in the state
        subst hquote
        have htwo : ¬ ∃ b, d :: r = style.quote :: style.quote :: b := by
          rintro ⟨b, hb⟩
          exact hstart (startsWith_triple.2 ⟨b, by rw [hb]⟩)
        have hone (t : Text) : style.run (.plain 0) (style.quote :: t) = style.run (.plain 1) t :=
          run_cons_some (next_quote_triple hstyle (by omega)) t
        rcases ih with ⟨hnone, s, hs⟩ | ⟨a, b, ht, hsome, hrun⟩
        · obtain ⟨s', hs'⟩ := exists_run_after_quote hstyle htwo hs
          exact .inl ⟨by simp [hnone], s', by rw [hone, hs']⟩
        · rw [hdelimiter] at ht
          refine .inr ⟨style.quote :: a, b, by rw [hdelimiter, ht]; rfl, by simp [hsome], ?_⟩
          rw [hone, run_after_quote hstyle, hrun]
          · rintro rfl
            exact htwo ⟨style.quote :: b, ht⟩
          · rintro rfl
            exact htwo ⟨style.quote :: style.quote :: b, ht⟩
          · rintro ⟨b', rfl⟩
            exact htwo ⟨b' ++ [style.quote, style.quote, style.quote] ++ b, by rw [ht]; simp⟩
      · exact ih.append [c] (run_cons_some (hother hslash hquote) [])

def substitutions : Text → List Text
  | [] => []
  | c :: r =>
      if c == backslash then substitutions (r.drop 1)
      else if c == '$' && r.head? == some openBrace then
        let n := Lexer.bracedTail 1 (r.drop 1)
        (r.drop 1).take n :: substitutions (r.drop (1 + n))
      else substitutions r
termination_by t => t.length
decreasing_by all_goals simp; try omega

section Template

variable {c : Char} {t : Text}

theorem template?_backtick (t : Text) : template? (backtick :: t) = some 0 := by
  rw [template?, if_neg (by decide), if_pos (beq_self_eq_true _)]

theorem template?_escape (c : Char) (t : Text) :
    template? (backslash :: c :: t) = (template? t).map (· + 2) := by
  rw [template?, if_pos (beq_self_eq_true _)]
  rfl

theorem template?_substitution (r : Text) : template? ('$' :: openBrace :: r) =
    (template? (r.drop (Lexer.bracedTail 1 r))).map (· + (Lexer.bracedTail 1 r + 2)) := by
  rw [template?, if_neg (by decide), if_neg (by decide), if_pos (by rfl)]
  simp only [List.drop_succ_cons, List.drop_zero, Nat.add_comm 1]

theorem template?_plain (hslash : c ≠ backslash) (hquote : c ≠ backtick)
    (hbrace : ¬(c = '$' ∧ t.head? = some openBrace)) :
    template? (c :: t) = (template? t).map (· + 1) := by
  rw [template?, if_neg (by simpa using hslash), if_neg (by simpa using hquote),
    if_neg (by simpa using hbrace)]

theorem substitutions_escape (c : Char) (t : Text) :
    substitutions (backslash :: c :: t) = substitutions t := by
  rw [substitutions, if_pos (beq_self_eq_true _)]
  rfl

theorem substitutions_substitution (r : Text) : substitutions ('$' :: openBrace :: r) =
    r.take (Lexer.bracedTail 1 r) :: substitutions (r.drop (Lexer.bracedTail 1 r)) := by
  rw [substitutions, if_neg (by decide), if_pos (by rfl)]
  simp only [List.drop_succ_cons, List.drop_zero, Nat.add_comm 1]

theorem substitutions_plain (hslash : c ≠ backslash)
    (hbrace : ¬(c = '$' ∧ t.head? = some openBrace)) :
    substitutions (c :: t) = substitutions t := by
  rw [substitutions, if_neg (by simpa using hslash), if_neg (by simpa using hbrace)]

@[elab_as_elim]
theorem template_induction {motive : Text → Prop} (nil : motive []) (alone : motive [backslash])
    (escape : ∀ c t, motive t → motive (backslash :: c :: t))
    (quote : ∀ t, motive (backtick :: t))
    (substitution : ∀ t, (∀ u, u.length ≤ t.length → motive u) → motive ('$' :: openBrace :: t))
    (plain : ∀ c t, c ≠ backslash → c ≠ backtick → ¬(c = '$' ∧ t.head? = some openBrace) →
      motive t → motive (c :: t))
    (t : Text) : motive t := by
  induction hn : t.length using Nat.strongRecOn generalizing t with
  | _ n ih =>
  have hrest {u : Text} (hu : u.length < t.length) : motive u := ih u.length (hn ▸ hu) u rfl
  match t with
  | [] => exact nil
  | c :: t =>
      by_cases hslash : c = backslash
      · subst hslash
        match t with
        | [] => exact alone
        | d :: t => exact escape d t (hrest (by simp only [List.length_cons]; omega))
      by_cases hquote : c = backtick
      · subst hquote
        exact quote t
      by_cases hbrace : c = '$' ∧ t.head? = some openBrace
      · obtain ⟨rfl, hhead⟩ := hbrace
        obtain ⟨t, rfl⟩ := List.head?_eq_some_iff.1 hhead
        refine substitution t fun u hu => hrest ?_
        simp only [List.length_cons]
        omega
      · exact plain c t hslash hquote hbrace (hrest (by simp))

end Template

theorem next_braced {depth : Nat} {c : Char} (hc : c ≠ backtick) :
    QuoteStyle.template.next (.braced depth) c =
      some (if c = openBrace then .braced (depth + 1)
        else if c = closeBrace then if depth ≤ 1 then .plain 0 else .braced (depth - 1)
        else .braced depth) := by
  have hquote : c ≠ QuoteStyle.template.quote := hc
  rw [next, if_neg hquote]
  split
  · rfl
  · split <;> rfl

theorem run_braced {depth : Nat} {t : Text} {s : Inside}
    (h : QuoteStyle.template.run (.braced depth) t = some s) (hs : ∀ d, s ≠ .braced d) :
    ∃ x y, t = x ++ y ∧ (∀ z, Lexer.bracedTail depth (x ++ z) = x.length) ∧
      QuoteStyle.template.run (.plain 0) y = some s := by
  induction t generalizing depth with
  | nil => exact absurd (Option.some.inj h).symm (hs depth)
  | cons c t ih =>
      have hstep (depth' : Nat)
          (hnext : QuoteStyle.template.next (.braced depth) c = some (.braced depth'))
          (htail : ∀ z, Lexer.bracedTail depth (c :: z) = 1 + Lexer.bracedTail depth' z) :
          ∃ x y, c :: t = x ++ y ∧ (∀ z, Lexer.bracedTail depth (x ++ z) = x.length) ∧
            QuoteStyle.template.run (.plain 0) y = some s := by
        rw [run_cons_some hnext] at h
        obtain ⟨x, y, rfl, hx, hy⟩ := ih h
        refine ⟨c :: x, y, rfl, ?_, hy⟩
        intro z
        rw [List.cons_append, htail, hx, List.length_cons, Nat.add_comm]
      by_cases hquote : c = backtick
      · subst hquote
        cases h
      by_cases hopen : c = openBrace
      · refine hstep (depth + 1) (by rw [next_braced hquote, if_pos hopen]) fun z => ?_
        rw [Lexer.bracedTail, if_pos (beq_iff_eq.2 hopen)]
      have hopen' : ¬(c == openBrace) = true := by simpa using hopen
      by_cases hclose : c = closeBrace
      · by_cases hdepth : depth ≤ 1
        · have hnext : QuoteStyle.template.next (.braced depth) c = some (.plain 0) := by
            rw [next_braced hquote, if_neg hopen, if_pos hclose, if_pos hdepth]
          rw [run_cons_some hnext] at h
          refine ⟨[c], t, rfl, fun z => ?_, h⟩
          rw [List.singleton_append, Lexer.bracedTail, if_neg hopen', if_pos (beq_iff_eq.2 hclose),
            if_pos hdepth]
          rfl
        · refine hstep (depth - 1) ?_ fun z => ?_
          · rw [next_braced hquote, if_neg hopen, if_pos hclose, if_neg hdepth]
          · rw [Lexer.bracedTail, if_neg hopen', if_pos (beq_iff_eq.2 hclose), if_neg hdepth]
      · refine hstep depth ?_ fun z => ?_
        · rw [next_braced hquote, if_neg hopen, if_neg hclose]
        · rw [Lexer.bracedTail, if_neg hopen', if_neg (by simpa using hclose)]

theorem run_bracedTail {depth : Nat} {t : Text} (hrest : t.drop (Lexer.bracedTail depth t) ≠ [])
    (hquote : backtick ∉ t.take (Lexer.bracedTail depth t)) :
    QuoteStyle.template.run (.braced depth) (t.take (Lexer.bracedTail depth t)) =
      some (.plain 0) := by
  fun_induction Lexer.bracedTail depth t with
  | case1 => simp at hrest
  | case2 depth c t hopen ih =>
      rw [Nat.add_comm 1, List.take_succ_cons, List.mem_cons, not_or] at hquote
      rw [Nat.add_comm 1, List.drop_succ_cons] at hrest
      have hnext : QuoteStyle.template.next (.braced depth) c = some (.braced (depth + 1)) := by
        rw [next_braced (Ne.symm hquote.1), if_pos (beq_iff_eq.1 hopen)]
      rw [Nat.add_comm 1, List.take_succ_cons, run_cons_some hnext, ih hrest hquote.2]
  | case3 depth c t hopen hclose hdepth =>
      rw [List.take_succ_cons, List.mem_cons, not_or] at hquote
      have hnext : QuoteStyle.template.next (.braced depth) c = some (.plain 0) := by
        rw [next_braced (Ne.symm hquote.1), if_neg (by simpa using hopen),
          if_pos (beq_iff_eq.1 hclose), if_pos hdepth]
      rw [List.take_succ_cons, List.take_zero, run_cons_some hnext]
      rfl
  | case4 depth c t hopen hclose hdepth ih =>
      rw [Nat.add_comm 1, List.take_succ_cons, List.mem_cons, not_or] at hquote
      rw [Nat.add_comm 1, List.drop_succ_cons] at hrest
      have hnext : QuoteStyle.template.next (.braced depth) c = some (.braced (depth - 1)) := by
        rw [next_braced (Ne.symm hquote.1), if_neg (by simpa using hopen),
          if_pos (beq_iff_eq.1 hclose), if_neg hdepth]
      rw [Nat.add_comm 1, List.take_succ_cons, run_cons_some hnext, ih hrest hquote.2]
  | case5 depth c t hopen hclose ih =>
      rw [Nat.add_comm 1, List.take_succ_cons, List.mem_cons, not_or] at hquote
      rw [Nat.add_comm 1, List.drop_succ_cons] at hrest
      have hnext : QuoteStyle.template.next (.braced depth) c = some (.braced depth) := by
        rw [next_braced (Ne.symm hquote.1), if_neg (by simpa using hopen),
          if_neg (by simpa using hclose)]
      rw [Nat.add_comm 1, List.take_succ_cons, run_cons_some hnext, ih hrest hquote.2]

theorem run_closed {x : Text} (hx : ∀ z, Lexer.bracedTail 1 (x ++ z) = x.length)
    (hquote : backtick ∉ x) : QuoteStyle.template.run (.braced 1) x = some (.plain 0) := by
  have htail := hx [backtick]
  have hdrop : (x ++ [backtick]).drop (Lexer.bracedTail 1 (x ++ [backtick])) = [backtick] := by
    rw [htail, List.drop_left]
  have htake : (x ++ [backtick]).take (Lexer.bracedTail 1 (x ++ [backtick])) = x := by
    rw [htail, List.take_left]
  have hclosed := run_bracedTail (by rw [hdrop]; simp) (by rw [htake]; exact hquote)
  rwa [htake] at hclosed

theorem run_dollar {t : Text} (ht : t ≠ []) (hhead : t.head? ≠ some openBrace) :
    style.run .dollar t = style.run (.plain 0) t := by
  cases t with
  | nil => exact absurd rfl ht
  | cons c t =>
      have hc : c ≠ openBrace := by simpa using hhead
      have hnext : style.next .dollar c = style.next (.plain 0) c := if_neg hc
      rw [run, run, hnext]

theorem encloses_plain {c : Char} {u : Text} (hslash : c ≠ backslash) (hquote : c ≠ backtick)
    (hbrace : ¬(c = '$' ∧ u.head? = some openBrace)) :
    QuoteStyle.template.Encloses (c :: u) ↔ QuoteStyle.template.Encloses u := by
  by_cases hdollar : c = '$'
  · subst hdollar
    have hhead : u.head? ≠ some openBrace := fun hhead => hbrace ⟨rfl, hhead⟩
    have hdollar (s : Inside) : QuoteStyle.template.run (.plain 0) ('$' :: u) = some s ↔
        QuoteStyle.template.run .dollar u = some s := Iff.rfl
    by_cases hu : u = []
    · subst hu
      exact iff_of_true ⟨.dollar, rfl, rfl⟩ ⟨.plain 0, rfl, rfl⟩
    · unfold QuoteStyle.Encloses
      simp only [hdollar, run_dollar hu hhead]
  · have hnext : QuoteStyle.template.next (.plain 0) c = some (.plain 0) := by
      have hquote' : c ≠ QuoteStyle.template.quote := hquote
      simp [next, nextPlain, hslash, hquote', hdollar, isBlock]
    unfold QuoteStyle.Encloses
    rw [run_cons_some hnext]

theorem template?_of_encloses {u : Text} (hu : QuoteStyle.template.Encloses u) (z : Text) :
    template? (u ++ backtick :: z) = some u.length := by
  induction u using template_induction with
  | nil => exact template?_backtick z
  | alone =>
      obtain ⟨s, hrun, hs⟩ := hu
      cases hrun
      cases hs
  | escape c u ih =>
      have hinner : QuoteStyle.template.Encloses u := hu
      rw [List.cons_append, List.cons_append, template?_escape, ih hinner]
      rfl
  | quote u =>
      obtain ⟨s, hrun, -⟩ := hu
      cases hrun
  | substitution u ih =>
      obtain ⟨s, hrun, hs⟩ := hu
      obtain ⟨x, y, rfl, hx, hy⟩ := run_braced hrun (by rintro d rfl; cases hs)
      have hrest := ih y (by simp) ⟨s, hy, hs⟩
      rw [List.cons_append, List.cons_append, List.append_assoc,
        template?_substitution, hx, List.drop_left, hrest]
      simp only [Option.map_some, List.length_cons, List.length_append]
      congr 1
      omega
  | plain c u hslash hquote hbrace ih =>
      have hbrace' : ¬(c = '$' ∧ (u ++ backtick :: z).head? = some openBrace) := by
        rintro ⟨hdollar, hhead⟩
        cases u with
        | nil => cases hhead
        | cons d u => exact hbrace ⟨hdollar, hhead⟩
      rw [List.cons_append, template?_plain hslash hquote hbrace',
        ih ((encloses_plain hslash hquote hbrace).1 hu)]
      rfl

theorem exists_substitution {r : Text} {n : Nat}
    (h : template? ('$' :: openBrace :: r) = some n) :
    ∃ x y m, r = x ++ y ∧ (∀ z, Lexer.bracedTail 1 (x ++ z) = x.length) ∧
      template? y = some m ∧ n = m + (x.length + 2) := by
  rw [template?_substitution] at h
  obtain ⟨m, hm, rfl⟩ := Option.map_eq_some_iff.1 h
  generalize hk : Lexer.bracedTail 1 r = k at hm ⊢
  have hrest : r.drop k ≠ [] := by
    intro hnil
    simp [hnil, template?] at hm
  have hlength : (r.take k).length = k := by
    have hpos := List.length_pos_iff.2 hrest
    rw [List.length_drop] at hpos
    rw [List.length_take]
    omega
  have hwhole : Lexer.bracedTail 1 (r.take k ++ r.drop k) = (r.take k).length := by
    rw [List.take_append_drop, hk, hlength]
  exact ⟨r.take k, r.drop k, m, (List.take_append_drop k r).symm,
    Lexer.bracedTail_local hrest hwhole, hm, by rw [hlength]⟩

theorem template?_eq_some {t : Text} {n : Nat} (h : template? t = some n) :
    ∃ b, t = t.take n ++ backtick :: b := by
  fun_induction template? t generalizing n with
  | case1 => cases h
  | case2 c r hslash ih =>
      obtain ⟨m, hm, rfl⟩ := Option.map_eq_some_iff.1 h
      obtain ⟨b, hb⟩ := ih hm
      cases r with
      | nil => simp [template?] at hm
      | cons d r =>
          rw [List.drop_succ_cons, List.drop_zero] at hb
          refine ⟨b, ?_⟩
          rw [List.take_succ_cons, List.take_succ_cons, List.cons_append, List.cons_append, ← hb]
  | case3 c r hslash htick =>
      obtain rfl := Option.some.inj h
      exact ⟨r, by rw [beq_iff_eq.1 htick]; rfl⟩
  | case4 c r hslash htick hbrace k =>
      rename_i ih
      obtain ⟨m, hm, rfl⟩ := Option.map_eq_some_iff.1 h
      obtain ⟨b, hb⟩ := ih hm
      refine ⟨b, ?_⟩
      rw [← Nat.add_assoc, List.take_succ_cons, Nat.add_comm m, List.take_add, List.cons_append,
        List.append_assoc, ← hb, List.take_append_drop]
  | case5 c r hslash htick hbrace ih =>
      obtain ⟨m, hm, rfl⟩ := Option.map_eq_some_iff.1 h
      obtain ⟨b, hb⟩ := ih hm
      exact ⟨b, by rw [List.take_succ_cons, List.cons_append, ← hb]⟩

theorem encloses_of_template? {t : Text} {n : Nat} (h : template? t = some n)
    (hsub : ∀ e ∈ substitutions (t.take n), backtick ∉ e) :
    ∃ b, t = t.take n ++ backtick :: b ∧ QuoteStyle.template.Encloses (t.take n) := by
  induction t using template_induction generalizing n with
  | nil => simp [template?] at h
  | alone => simp [template?] at h
  | escape c t ih =>
      rw [template?_escape] at h
      obtain ⟨m, hm, rfl⟩ := Option.map_eq_some_iff.1 h
      rw [List.take_succ_cons, List.take_succ_cons] at hsub ⊢
      rw [substitutions_escape] at hsub
      obtain ⟨b, ht, hinner⟩ := ih hm hsub
      exact ⟨b, by rw [List.cons_append, List.cons_append, ← ht], hinner⟩
  | quote t =>
      rw [template?_backtick] at h
      obtain rfl := Option.some.inj h
      exact ⟨t, rfl, .plain 0, rfl, rfl⟩
  | substitution t ih =>
      obtain ⟨x, y, m, rfl, hx, hm, rfl⟩ := exists_substitution h
      have htake : ('$' :: openBrace :: (x ++ y)).take (m + (x.length + 2)) =
          '$' :: openBrace :: (x ++ y.take m) := by
        rw [show m + (x.length + 2) = x.length + m + 1 + 1 by omega, List.take_succ_cons,
          List.take_succ_cons, List.take_length_add_append]
      rw [htake, substitutions_substitution, hx, List.take_left, List.drop_left,
        List.forall_mem_cons] at hsub
      obtain ⟨b, hy, s, hrun, hs⟩ := ih y (by simp) hm hsub.2
      rw [htake]
      refine ⟨b, ?_, s, ?_, hs⟩
      · rw [List.cons_append, List.cons_append, List.append_assoc, ← hy]
      · show QuoteStyle.template.run (.braced 1) (x ++ y.take m) = some s
        rw [run_append_some (run_closed hx hsub.1), hrun]
  | plain c t hslash hquote hbrace ih =>
      rw [template?_plain hslash hquote hbrace] at h
      obtain ⟨m, hm, rfl⟩ := Option.map_eq_some_iff.1 h
      rw [List.take_succ_cons] at hsub ⊢
      have hbrace' : ¬(c = '$' ∧ (t.take m).head? = some openBrace) := by
        rintro ⟨hdollar, hhead⟩
        refine hbrace ⟨hdollar, ?_⟩
        rw [List.head?_take] at hhead
        split at hhead
        · cases hhead
        · exact hhead
      rw [substitutions_plain hslash hbrace'] at hsub
      obtain ⟨b, ht, hinner⟩ := ih hm hsub
      exact ⟨b, by rw [List.cons_append, ← ht], (encloses_plain hslash hquote hbrace').2 hinner⟩

end Extent

namespace QuoteStyle

variable {style : QuoteStyle}

theorem next_of_isReady {s : Inside} (hs : s.isReady = true) :
    style.next s style.quote = style.next (.plain 0) style.quote := by
  match s, hs with
  | .plain 0, _ => rfl
  | .dollar, _ => exact if_neg style.quote_special.2.2.2.1

theorem run_delimiter (style : QuoteStyle) {s : Inside} (hs : s.isReady = true) (z : Text) :
    style.run s (style.delimiter ++ z) = none := by
  have hlength : style.delimiter.length = if style.isTriple then 3 else 1 := by
    unfold delimiter
    split <;> rfl
  unfold delimiter
  cases hstyle : style.isTriple with
  | false =>
      rw [if_neg (by simp)]
      have hnext : style.next s style.quote = none := by
        rw [next_of_isReady hs]
        show style.nextPlain 0 style.quote = none
        rw [nextPlain_quote, hlength, hstyle]
        rfl
      show style.run s (style.quote :: z) = none
      rw [run, hnext]
      rfl
  | true =>
      have hlast : style.next (.plain 2) style.quote = none := by
        show style.nextPlain 2 style.quote = none
        rw [nextPlain_quote, hlength, hstyle]
        rfl
      have hfirst : style.next s style.quote = some (.plain 1) := by
        rw [next_of_isReady hs]
        exact Extent.next_quote_triple hstyle (by omega)
      rw [if_pos rfl]
      show style.run s (style.quote :: style.quote :: style.quote :: z) = none
      rw [run_cons_some hfirst, run_cons_some (Extent.next_quote_triple hstyle (by omega)), run,
        hlast]
      rfl

theorem run_part_delimiter {s s' : Inside} (hs : s.isReady = true) {y w : Text}
    (hw : style.delimiter = y ++ w) (hrun : style.run s y = some s') (hs' : s'.isReady = true) :
    y = [] := by
  have hfull := style.run_delimiter hs []
  rw [List.append_nil] at hfull
  have hproper : y ≠ style.delimiter := by
    rintro rfl
    simp [hfull] at hrun
  cases hstyle : style.isTriple with
  | false =>
      have hdelimiter : style.delimiter = [style.quote] := by simp [delimiter, hstyle]
      rw [hdelimiter] at hw hproper
      cases y with
      | nil => rfl
      | cons q y =>
          obtain ⟨rfl, hnil⟩ := List.cons.inj hw
          exact absurd (by simp_all) hproper
  | true =>
      have hdelimiter : style.delimiter = [style.quote, style.quote, style.quote] := by
        simp [delimiter, hstyle]
      have hfirst : style.next s style.quote = some (.plain 1) := by
        rw [next_of_isReady hs]
        exact Extent.next_quote_triple hstyle (by omega)
      have hsecond : style.next (.plain 1) style.quote = some (.plain 2) :=
        Extent.next_quote_triple hstyle (by omega)
      rw [hdelimiter] at hw hproper
      rcases y with _ | ⟨q, _ | ⟨q', _ | ⟨q'', y⟩⟩⟩
      · rfl
      · obtain rfl : style.quote = q := (List.cons.inj hw).1
        rw [run_cons_some hfirst] at hrun
        obtain rfl := Option.some.inj hrun
        cases hs'
      · obtain ⟨hq, hw⟩ := List.cons.inj hw
        have hq' := (List.cons.inj hw).1
        rw [← hq, ← hq', run_cons_some hfirst, run_cons_some hsecond] at hrun
        obtain rfl := Option.some.inj hrun
        cases hs'
      · have hlength := congrArg List.length hw
        have hnil : y = [] ∧ w = [] := by
          simp only [List.length_cons, List.length_append, List.length_nil] at hlength
          exact ⟨List.length_eq_zero_iff.1 (by omega), List.length_eq_zero_iff.1 (by omega)⟩
        rw [hnil.1, hnil.2] at hw
        exact absurd (by rw [hnil.1, hw]; rfl) hproper

theorem encloses_unique {a b u z : Text} (ha : style.Encloses a) (hu : style.Encloses u)
    (h : a ++ (style.delimiter ++ b) = u ++ (style.delimiter ++ z)) : a = u := by
  have hshort {a u b z : Text} (ha : style.Encloses a) (hu : style.Encloses u) {y : Text}
      (hy : u = a ++ y) (hrest : style.delimiter ++ b = y ++ (style.delimiter ++ z)) : y = [] := by
    obtain ⟨s, hrun, hs⟩ := ha
    obtain ⟨s', hrun', hs'⟩ := hu
    rw [hy, run_append_some hrun] at hrun'
    rcases List.append_eq_append_iff.1 hrest with ⟨w, rfl, -⟩ | ⟨w, hw, -⟩
    · simp [style.run_delimiter hs] at hrun'
    · exact run_part_delimiter hs hw hrun' hs'
  rcases List.append_eq_append_iff.1 h with ⟨y, hy, hrest⟩ | ⟨y, hy, hrest⟩
  · have hnil := hshort ha hu hy hrest
    rw [hy, hnil, List.append_nil]
  · have hnil := hshort hu ha hy hrest
    rw [hy, hnil, List.append_nil]

end QuoteStyle

end EmbeddedSql
