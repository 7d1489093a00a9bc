import EmbeddedSql.Proofs.Literal.Closing
import EmbeddedSql.Proofs.Literal.Lagging
import EmbeddedSql.Proofs.Literal.Spans

namespace EmbeddedSql

open Text

def Inside.isFlat : Inside → Bool
  | .plain _ | .shielded => true
  | _ => false

namespace QuoteStyle

def tripled (quote : Char) : QuoteStyle :=
  if quote == doubleQuote then .tripleDouble else .tripleSingle

def opened (triples : Bool) (quote : Char) (r : Text) : QuoteStyle :=
  if triples && startsWith r [quote, quote] then tripled quote
  else if quote == doubleQuote then .double else .single

theorem tripled_isTriple (q : Char) : (tripled q).isTriple = true := by
  unfold tripled
  split <;> rfl

theorem tripled_ne_template (q : Char) : tripled q ≠ .template := by
  unfold tripled
  split <;> simp

theorem tripled_isBlock (q : Char) : (tripled q).isBlock = true := by
  unfold tripled
  split <;> rfl

theorem opened_tripled (q : Char) (r : Text) : opened true q (q :: q :: r) = tripled q := by
  simp [opened, startsWith]

section Opened

variable (triples : Bool) {q : Char} (r : Text)

theorem opened_isTriple : (opened triples q r).isTriple = (triples && startsWith r [q, q]) := by
  unfold opened tripled
  cases triples && startsWith r [q, q] <;> cases q == doubleQuote <;> rfl

theorem opened_isBlock : (opened triples q r).isBlock = (opened triples q r).isTriple := by
  unfold opened tripled
  cases triples && startsWith r [q, q] <;> cases q == doubleQuote <;> rfl

theorem opened_ne_template : opened triples q r ≠ .template := by
  intro h
  have hblock := opened_isBlock triples (q := q) r
  rw [h] at hblock
  cases hblock

variable (hq : Scan.isQuote q = true)

include hq

theorem opened_quote : (opened triples q r).quote = q := by
  rcases Scan.isQuote_iff.1 hq with rfl | rfl <;> unfold opened tripled <;>
    cases triples && startsWith r _ <;> rfl

theorem tripled_quote : (tripled q).quote = q := by
  rw [← opened_tripled q [], opened_quote true _ hq]

theorem tripled_delimiter : (tripled q).delimiter = [q, q, q] := by
  rw [delimiter, tripled_isTriple, if_pos rfl, tripled_quote hq]

theorem exists_body : ∃ body, q :: r = (opened triples q r).delimiter ++ body := by
  rw [delimiter, opened_isTriple, opened_quote triples r hq]
  split
  next htriple =>
    obtain ⟨body, rfl⟩ := List.isPrefixOf_iff_prefix.1 (Bool.and_eq_true_iff.1 htriple).2
    exact ⟨body, rfl⟩
  · exact ⟨r, rfl⟩

theorem locate?_closes {body : Text} (hbody : q :: r = (opened triples q r).delimiter ++ body) :
    ∃ found, Extent.Closes (opened triples q r) body found ∧
      locate? triples q r = found.map fun n => ⟨opened triples q r, body.take n⟩ := by
  have hquote := opened_quote triples r hq
  have htriple := opened_isTriple triples (q := q) r
  have hblock := opened_isBlock triples (q := q) r
  cases hopen : triples && startsWith r [q, q] with
  | true =>
      have hstyle : opened triples q r =
          if q == doubleQuote then .tripleDouble else .tripleSingle := by
        rw [opened, hopen, if_pos rfl, tripled]
      rw [hopen] at htriple
      have hdrop : r.drop 2 = body := by
        rw [delimiter, htriple, if_pos rfl, hquote] at hbody
        exact congrArg (List.drop 3) hbody
      refine ⟨_, Extent.closes_triple? htriple body, ?_⟩
      rw [hquote, locate?, hopen, if_pos rfl, hdrop, hstyle]
  | false =>
      have hstyle : opened triples q r = if q == doubleQuote then .double else .single := by
        rw [opened, hopen, if_neg (by simp)]
      rw [hopen] at htriple
      obtain rfl : r = body := by
        rw [delimiter, htriple, if_neg (by simp), hquote] at hbody
        exact congrArg List.tail hbody
      refine ⟨_, Extent.closes_line? (hblock.trans htriple) r, ?_⟩
      rw [hquote, locate?, hopen, if_neg (by simp), hstyle]

theorem locate?_cases {body : Text} (hbody : q :: r = (opened triples q r).delimiter ++ body) :
    (locate? triples q r = none ∧ ∃ s, (opened triples q r).run (.plain 0) body = some s) ∨
      ∃ u z, body = u ++ ((opened triples q r).delimiter ++ z) ∧
        locate? triples q r = some ⟨opened triples q r, u⟩ ∧ (opened triples q r).Encloses u := by
  obtain ⟨found, hcloses, hlocate⟩ := locate?_closes triples r hq hbody
  rw [hlocate]
  rcases hcloses with ⟨rfl, hrun⟩ | ⟨u, z, rfl, rfl, hrun⟩
  · exact .inl ⟨rfl, hrun⟩
  · exact .inr ⟨u, z, rfl, by rw [Option.map_some, List.take_left], _, hrun, rfl⟩

variable {triples r}

theorem exists_run_of_locate?_eq_none {body : Text}
    (hbody : q :: r = (opened triples q r).delimiter ++ body) (h : locate? triples q r = none) :
    ∃ s, (opened triples q r).run (.plain 0) body = some s := by
  rcases locate?_cases triples r hq hbody with ⟨-, hrun⟩ | ⟨u, z, -, hsome, -⟩
  · exact hrun
  · rw [h] at hsome
    cases hsome

variable {style : QuoteStyle} (hopen : opened triples q r = style)

include hopen

theorem locate?_eq_none_of_run {body : Text} (hbody : q :: r = style.delimiter ++ body) {s : Inside}
    (h : style.run (.plain 0) body = some s) : locate? triples q r = none := by
  subst hopen
  rcases locate?_cases triples r hq hbody with ⟨hnone, -⟩ | ⟨u, z, rfl, -, x, hx, hready⟩
  · exact hnone
  · rw [run_append_some hx, run_delimiter _ hready] at h
    cases h

theorem locate?_of_encloses {u z : Text}
    (hbody : q :: r = style.delimiter ++ (u ++ (style.delimiter ++ z))) (hu : style.Encloses u) :
    locate? triples q r = some ⟨style, u⟩ := by
  subst hopen
  rcases locate?_cases triples r hq hbody with ⟨-, s, hs⟩ | ⟨u', z', hu', hsome, hencloses⟩
  · obtain ⟨x, hx, hready⟩ := hu
    rw [run_append_some hx, run_delimiter _ hready] at hs
    cases hs
  · rw [hsome, encloses_unique hu hencloses hu']

end Opened

theorem not_startsWith_of_encloses {style : QuoteStyle} (hstyle : style.isTriple = false)
    {u z : Text} (hu : style.Encloses u) (hz : u = [] → z.head? ≠ some style.quote) :
    startsWith (u ++ style.quote :: z) [style.quote, style.quote] = false := by
  have hdelimiter : style.delimiter = [style.quote] := by
    rw [delimiter, hstyle]
    rfl
  rw [Bool.eq_false_iff]
  intro htwo
  obtain ⟨r, hr⟩ := List.isPrefixOf_iff_prefix.1 htwo
  cases u with
  | nil => exact hz rfl (by rw [← (List.cons.inj hr).2]; rfl)
  | cons c u =>
      obtain ⟨rfl, -⟩ := List.cons.inj hr
      obtain ⟨x, hx, -⟩ := hu
      have hclosed := style.run_delimiter (s := .plain 0) rfl u
      rw [hdelimiter, List.singleton_append, hx] at hclosed
      cases hclosed

theorem opened_eq {triples : Bool} {q : Char} (hq : Scan.isQuote q = true) {style : QuoteStyle}
    {r r' u u' z z' : Text} (hopen : opened triples q r = style)
    (hr : q :: r = style.delimiter ++ (u ++ (style.delimiter ++ z)))
    (hr' : q :: r' = style.delimiter ++ (u' ++ (style.delimiter ++ z'))) (hu' : style.Encloses u')
    (hempty : triples = true → u' = [] → u = []) (hz : z'.head? = z.head?) :
    opened triples q r' = style := by
  have hquote := opened_quote triples r hq
  have htriple := opened_isTriple triples (q := q) r
  rw [hopen] at hquote htriple
  have htwo : (triples && startsWith r' [q, q]) = (triples && startsWith r [q, q]) := by
    cases triples with
    | false => rfl
    | true =>
        rw [Bool.true_and] at htriple ⊢
        rw [Bool.true_and, ← htriple]
        cases hstyle : style.isTriple with
        | true =>
            rw [delimiter, hstyle, if_pos rfl, hquote] at hr'
            have hr' := (List.cons.inj hr').2
            rw [hr']
            simp [startsWith]
        | false =>
            rw [delimiter, hstyle, if_neg (by simp)] at hr hr'
            have hr : r = u ++ style.quote :: z := (List.cons.inj hr).2
            have hr' : r' = u' ++ style.quote :: z' := (List.cons.inj hr').2
            rw [hr', ← hquote]
            refine not_startsWith_of_encloses hstyle hu' fun hnil => ?_
            obtain rfl := hempty rfl hnil
            rw [hz]
            intro hhead
            obtain ⟨z, rfl⟩ := List.head?_eq_some_iff.1 hhead
            rw [hr, ← hquote, hstyle] at htriple
            simp [startsWith] at htriple
  rw [← hopen, opened, opened, htwo]

section Passing

open Inside

variable {style other : QuoteStyle} {s x : Inside}

theorem next_quote_other (hquote : other.quote ≠ style.quote)
    (hs : s.isFlat = true) : style.next s other.quote = some (.plain 0) := by
  obtain ⟨hslash, hbreak, hdollar, -, -⟩ := other.quote_special
  cases s with
  | plain k => simp [next, nextPlain, hslash, hquote, hbreak, hdollar]
  | shielded => rfl
  | dollar | braced | broken => cases hs

theorem run_delimiter_other (hquote : other.quote ≠ style.quote)
    (hs : s.isFlat = true) : style.run s other.delimiter = some (.plain 0) := by
  have hnext {s : Inside} (hs : s.isFlat = true) (t : Text) :
      style.run s (other.quote :: t) = style.run (.plain 0) t :=
    run_cons_some (next_quote_other hquote hs) t
  unfold delimiter
  split
  · rw [hnext hs, hnext rfl, hnext rfl]
    rfl
  · rw [hnext hs]
    rfl

theorem next_isFlat (hstyle : style ≠ .template) {c : Char} (hs : s.isFlat = true)
    (h : style.next s c = some x) (hx : x ≠ .broken) : x.isFlat = true := by
  cases s with
  | plain k => grind [next, nextPlain, Inside.isFlat]
  | shielded =>
      obtain rfl := Option.some.inj h
      rfl
  | dollar | braced | broken => cases hs

theorem run_isFlat (hstyle : style ≠ .template) {t : Text} (hs : s.isFlat = true)
    (h : style.run s t = some x) (hx : x ≠ .broken) : x.isFlat = true := by
  induction t generalizing s with
  | nil =>
      obtain rfl := Option.some.inj h
      exact hs
  | cons c t ih =>
      obtain ⟨y, hy, hrest⟩ := Option.bind_eq_some_iff.1 h
      exact ih (next_isFlat hstyle hs hy (ne_broken_of_run hrest hx)) hrest

theorem exists_plain_of_delimiter (hstyle : style ≠ .template) (hs : s.isFlat = true)
    (h : style.run s other.delimiter = some x) (hx : x ≠ .broken) : ∃ k, x = .plain k := by
  have hlast : other.delimiter.getLast? = some other.quote := by
    unfold delimiter
    split <;> rfl
  have hflat := run_isFlat hstyle hs h hx
  cases x with
  | plain k => exact ⟨k, rfl⟩
  | shielded =>
      have hslash := getLast?_of_shielded h (by rintro heq; rw [heq] at hlast; cases hlast)
      rw [hlast] at hslash
      exact absurd (Option.some.inj hslash) other.quote_special.1
  | dollar | braced | broken => cases hflat

theorem run_literal_same (hstyle : style ≠ .template) {u : Text} (hu : style.Encloses u)
    (hs : s.isFlat = true) (hx : x ≠ .broken) :
    style.run s (style.delimiter ++ (u ++ style.delimiter)) ≠ some x := by
  intro h
  obtain ⟨y, hy, hrest⟩ := exists_of_run_append h
  have hbroken := ne_broken_of_run hrest hx
  obtain ⟨k, rfl⟩ := exists_plain_of_delimiter hstyle hs hy hbroken
  obtain ⟨x', hx', -⟩ := run_lags (.plain (Nat.zero_le k)) hrest hx
  obtain ⟨z, hz, hready⟩ := hu
  have hclosed := style.run_delimiter hready []
  rw [List.append_nil] at hclosed
  rw [run_append_some hz, hclosed] at hx'
  cases hx'

theorem run_triple_delimiter (hstyle : style.isBlock = false) (hother : other.isTriple = true)
    (hquote : other.quote = style.quote) (hs : s.isFlat = true) :
    style.run s other.delimiter = none := by
  have hclosed (k : Nat) (t : Text) : style.run (.plain k) (style.quote :: t) = none := by
    have hlength : style.delimiter.length = 1 := by
      cases style <;> first | rfl | cases hstyle
    have hnext : style.next (.plain k) style.quote = none := by
      show style.nextPlain k style.quote = none
      rw [nextPlain_quote, hlength, if_pos (by omega)]
    rw [run, hnext]
    rfl
  rw [delimiter, if_pos hother, hquote]
  cases s with
  | plain k => exact hclosed k _
  | shielded => exact hclosed 0 _
  | dollar | braced | broken => cases hs

theorem nextPlain_triple_of_line (hstyle : style.isTriple = true) (hother : other.isBlock = false)
    (hquote : other.quote = style.quote) {c : Char} (h : other.nextPlain 0 c = some x)
    (hx : x ≠ .broken) : style.nextPlain 0 c = some x ∧ (x = .plain 0 ∨ x = .shielded) := by
  have hlength : other.delimiter.length = 1 := by
    cases other <;> first | rfl | cases hother
  have hblock : style.isBlock = true := by
    cases style <;> first | rfl | cases hstyle
  have htemplate : other ≠ .template ∧ style ≠ .template := by
    constructor
    · rintro rfl
      cases hother
    · rintro rfl
      cases hstyle
  grind [nextPlain]

theorem run_triple_of_line {t : Text} (hstyle : style.isTriple = true)
    (hother : other.isBlock = false) (hquote : other.quote = style.quote)
    (hs : s = .plain 0 ∨ s = .shielded) (h : other.run s t = some x) (hx : x ≠ .broken) :
    style.run s t = some x := by
  induction t generalizing s with
  | nil => exact h
  | cons c t ih =>
      obtain ⟨y, hy, hrest⟩ := Option.bind_eq_some_iff.1 h
      have hbroken := ne_broken_of_run hrest hx
      have hnext : style.next s c = some y ∧ (y = .plain 0 ∨ y = .shielded) := by
        rcases hs with rfl | rfl
        · exact nextPlain_triple_of_line hstyle hother hquote hy hbroken
        · obtain rfl := Option.some.inj hy
          exact ⟨rfl, .inl rfl⟩
      rw [run_cons_some hnext.1]
      exact ih hnext.2 hrest

theorem run_line_literal (hstyle : style.isTriple = true) (hother : other.isBlock = false)
    (hquote : other.quote = style.quote) {u : Text} (hu : other.Encloses u) (hne : u ≠ [])
    (k : Nat) : style.run (.plain k) (u ++ other.delimiter) = some (.plain 1) := by
  obtain ⟨x, hx, hready⟩ := hu
  have htemplate : other ≠ .template := by
    rintro rfl
    cases hother
  have hdelimiter : other.delimiter = [style.quote] := by
    rw [← hquote]
    cases other <;> first | rfl | cases hother
  have hbroken : x ≠ .broken := by
    rintro rfl
    cases hready
  obtain rfl : x = .plain 0 := by
    have hflat := run_isFlat htemplate rfl hx hbroken
    match x, hready, hflat with
    | .plain 0, _, _ => rfl
  have hhead : u.head? ≠ some style.quote := by
    intro hhead
    obtain ⟨t, rfl⟩ := List.head?_eq_some_iff.1 hhead
    have hclosed := other.run_delimiter (s := .plain 0) rfl t
    rw [hdelimiter, List.singleton_append, hx] at hclosed
    cases hclosed
  have hrun := run_triple_of_line hstyle hother hquote (.inl rfl) hx hbroken
  rw [← Extent.run_forget (k := k) hne hhead] at hrun
  rw [run_append_some hrun, hdelimiter, run_cons_some (Extent.next_quote_triple hstyle (by omega))]
  rfl

theorem eq_of_quote (hquote : other.quote = style.quote)
    (htriple : other.isTriple = style.isTriple) : other = style := by
  cases style <;> cases other <;> first | rfl | exact absurd hquote (by decide) | cases htriple

theorem quote_backtick (hquote : style.quote = backtick) : style = .template := by
  cases style <;> first | rfl | exact absurd hquote (by decide)

theorem isBlock_eq (hstyle : style ≠ .template) : style.isBlock = style.isTriple := by
  cases style <;> first | rfl | exact absurd rfl hstyle

theorem run_literal (hstyle : style ≠ .template) {t u : Text} (hs : s.isFlat = true)
    (ht : other.Encloses t) (hu : other.Encloses u)
    (hsilent : other.quote ≠ style.quote → ∀ y, style.run (.plain 0) t = some y → y ≠ .broken →
      ∃ y', style.run (.plain 0) u = some y')
    (hfilled : style.isTriple = true → t ≠ [] ∧ u ≠ [])
    (h : style.run s (other.delimiter ++ (t ++ other.delimiter)) = some x) (hx : x ≠ .broken) :
    style.run s (other.delimiter ++ (u ++ other.delimiter)) = some x ∨
      style.run s (other.delimiter ++ (u ++ other.delimiter)) = some .broken := by
  by_cases hquote : other.quote = style.quote
  · left
    by_cases htriple : other.isTriple = style.isTriple
    · obtain rfl := eq_of_quote hquote htriple
      exact absurd h (run_literal_same hstyle ht hs hx)
    · have hother : other ≠ .template := by
        rintro rfl
        exact hstyle (quote_backtick hquote.symm)
      cases hline : style.isTriple with
      | false =>
          have hlong : other.isTriple = true := by simpa [hline] using htriple
          have hclosed :=
            run_triple_delimiter ((isBlock_eq hstyle).trans hline) hlong hquote hs
          rw [run_append, hclosed] at h
          cases h
      | true =>
          have hshort : other.isTriple = false := by simpa [hline] using htriple
          have hblock := (isBlock_eq hother).trans hshort
          obtain ⟨y, hy, hrest⟩ := exists_of_run_append h
          obtain ⟨k, rfl⟩ := exists_plain_of_delimiter hstyle hs hy (ne_broken_of_run hrest hx)
          rw [run_line_literal hline hblock hquote ht (hfilled hline).1] at hrest
          rw [run_append_some hy, run_line_literal hline hblock hquote hu (hfilled hline).2, hrest]
  · rw [run_append_some (run_delimiter_other hquote hs)] at h ⊢
    obtain ⟨y, hy, hrest⟩ := exists_of_run_append h
    have hbroken := ne_broken_of_run hrest hx
    obtain ⟨y', hy'⟩ := hsilent hquote y hy hbroken
    rw [run_append_some hy']
    by_cases hbroken' : y' = .broken
    · exact .inr (by rw [hbroken', run_broken])
    · rw [run_delimiter_other hquote (run_isFlat hstyle rfl hy hbroken)] at hrest
      rw [run_delimiter_other hquote (run_isFlat hstyle rfl hy' hbroken'), hrest]
      exact .inl rfl

end Passing

end QuoteStyle

end EmbeddedSql
