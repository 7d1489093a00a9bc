import EmbeddedSql.Proofs.Literal.Inside
import EmbeddedSql.Proofs.Text.Casing

namespace EmbeddedSql

open Text

namespace Inside

def depth : Inside → Nat
  | .braced depth => depth
  | _ => 0

def settle : Inside → Inside
  | .braced depth => .braced depth
  | .broken => .broken
  | _ => .plain 0

/-- The second state is as far from the end of the literal as the first, or further. -/
inductive Lags : Inside → Inside → Prop
  | plain {m n : Nat} : n ≤ m → Lags (.plain m) (.plain n)
  | shielded : Lags .shielded .shielded
  | dollar : Lags .dollar .dollar
  | apart : Lags .dollar (.plain 0)
  | braced (depth : Nat) : Lags (.braced depth) (.braced depth)
  | shallow {depth : Nat} {s : Inside} : s.depth < depth → Lags (.braced depth) s
  | broken (s : Inside) : Lags s .broken

theorem Lags.refl (s : Inside) : Lags s s := by
  cases s with
  | plain m => exact .plain (Nat.le_refl m)
  | shielded => exact .shielded
  | dollar => exact .dollar
  | braced depth => exact .braced depth
  | broken => exact .broken _

theorem settle_settle (s : Inside) : s.settle.settle = s.settle := by
  cases s <;> rfl

theorem settle_ne_shielded (s : Inside) : s.settle ≠ .shielded := by
  cases s <;> simp [settle]

theorem depth_settle (s : Inside) : s.settle.depth = s.depth := by
  cases s <;> rfl

namespace Lags

variable {s s' : Inside}

theorem settle (h : Lags s s') : Lags s.settle s'.settle := by
  cases h with
  | plain h => exact .refl _
  | shielded => exact .refl _
  | dollar => exact .refl _
  | apart => exact .refl _
  | braced depth => exact .refl _
  | shallow h => exact .shallow (by rwa [depth_settle])
  | broken s => exact .broken _

theorem settle_right (h : Lags s s') (hs : s ≠ .shielded) : Lags s s'.settle := by
  cases h with
  | plain h => exact .plain (Nat.zero_le _)
  | shielded => exact absurd rfl hs
  | dollar => exact .apart
  | apart => exact .apart
  | braced depth => exact .braced depth
  | shallow h => exact .shallow (by rwa [depth_settle])
  | broken s => exact .broken _

theorem exists_braced {depth : Nat} (h : Lags s (.braced depth)) : ∃ d, s = .braced d := by
  cases h with
  | braced => exact ⟨_, rfl⟩
  | shallow h => exact ⟨_, rfl⟩

end Lags

end Inside

def Inside.isInert (c : Char) : Bool :=
  !List.contains
    [backslash, singleQuote, doubleQuote, backtick, '$', openBrace, closeBrace, '\n'] c

theorem Inside.isInert_char (case : KeywordCase) (c : Char) :
    case.char c = c ∨ isInert (case.char c) = true ∧ isInert c = true := by
  refine case.forall_cased c (P := fun d c => d = c ∨ isInert d = true ∧ isInert c = true) ?_ ?_
  · decide +kernel
  · exact fun c => .inl rfl

namespace QuoteStyle

open Inside

variable {style : QuoteStyle} {s s' x : Inside} {c : Char} {t : Text}

theorem next_inert (hc : isInert c = true) (s : Inside) : style.next s c = some s.settle := by
  have hquote : c ≠ style.quote := by
    rintro rfl
    cases style <;> cases hc
  simp only [isInert, Bool.not_eq_true', List.contains_eq_mem, decide_eq_false_iff_not,
    List.mem_cons, List.not_mem_nil, not_or, or_false] at hc
  obtain ⟨hslash, -, -, -, hdollar, hopen, hclose, hbreak⟩ := hc
  cases s <;> simp [next, nextPlain, settle, *]

theorem next_char (case : KeywordCase) (s : Inside) (c : Char) :
    style.next s (case.char c) = style.next s c := by
  rcases isInert_char case c with h | ⟨h, h'⟩
  · rw [h]
  · rw [next_inert h, next_inert h']

theorem run_text (case : KeywordCase) (s : Inside) (t : Text) :
    style.run s (case.text t) = style.run s t := by
  induction t generalizing s with
  | nil => rfl
  | cons c t ih =>
      show (style.next s (case.char c)).bind _ = _
      rw [next_char, run]
      congr 1
      funext x
      exact ih x

theorem settle_of_run (h : style.run s t = some x) (hlast : t.getLast? = some c)
    (hc : isInert c = true) : x.settle = x := by
  obtain ⟨y, d, hd, hnext⟩ := of_run h (by rintro rfl; cases hlast)
  obtain rfl : c = d := Option.some.inj (hlast.symm.trans hd)
  rw [next_inert hc] at hnext
  obtain rfl := Option.some.inj hnext
  exact settle_settle y

theorem exists_next (s : Inside) (hc : c ≠ style.quote) : ∃ x, style.next s c = some x := by
  cases s with
  | plain k => exact exists_nextPlain hc
  | shielded => exact ⟨_, rfl⟩
  | dollar =>
      by_cases hopen : c = openBrace
      · exact ⟨_, if_pos hopen⟩
      · obtain ⟨x, hx⟩ := exists_nextPlain (k := 0) hc
        exact ⟨x, (if_neg hopen).trans hx⟩
  | braced depth =>
      rw [next, if_neg hc]
      split
      · exact ⟨_, rfl⟩
      · split <;> exact ⟨_, rfl⟩
  | broken => exact ⟨_, rfl⟩

theorem depth_nextPlain {k : Nat} (h : style.nextPlain k c = some x) : x.depth = 0 := by
  grind [nextPlain, Inside.depth]

theorem depth_next (h : style.next s c = some x) : x.depth ≤
    if c = openBrace then s.depth + 1 else if c = closeBrace then s.depth - 1 else s.depth := by
  cases s with
  | plain k => exact depth_nextPlain h ▸ Nat.zero_le _
  | shielded =>
      obtain rfl := Option.some.inj h
      exact Nat.zero_le _
  | dollar =>
      by_cases hopen : c = openBrace
      · rw [next, if_pos hopen] at h
        obtain rfl := Option.some.inj h
        rw [if_pos hopen]
        exact Nat.le_refl 1
      · rw [next, if_neg hopen] at h
        exact depth_nextPlain h ▸ Nat.zero_le _
  | braced d => grind [next, Inside.depth]
  | broken =>
      obtain rfl := Option.some.inj h
      exact Nat.zero_le _

theorem next_closeBrace (hs : s.depth = 0) :
    style.next s closeBrace = some (.plain 0) ∨ style.next s closeBrace = some .broken := by
  have hplain (k : Nat) : style.nextPlain k closeBrace = some (.plain 0) := by
    have hquote := style.quote_special.2.2.2.2.symm
    have hslash : closeBrace ≠ backslash := by decide
    have hbreak : closeBrace ≠ '\n' := by decide
    have hdollar : closeBrace ≠ '$' := by decide
    simp only [nextPlain, hquote, hslash, hbreak, hdollar, false_and, if_false]
  cases s with
  | plain k => exact .inl (hplain k)
  | shielded => exact .inl rfl
  | dollar => exact .inl (hplain 0)
  | braced d =>
      obtain rfl : d = 0 := hs
      exact .inl (by rw [next, if_neg style.quote_special.2.2.2.2.symm]; rfl)
  | broken => exact .inr rfl

theorem next_shallow {depth : Nat} (hs : s'.depth < depth)
    (h : style.next (.braced depth) c = some x) : ∃ x', style.next s' c = some x' ∧ Lags x x' := by
  have hquote : c ≠ style.quote := by
    rintro rfl
    simp [next] at h
  obtain ⟨x', hx'⟩ := exists_next s' hquote
  have hdepth := depth_next hx'
  rw [next, if_neg hquote] at h
  by_cases hopen : c = openBrace
  · rw [if_pos hopen] at h hdepth
    obtain rfl := Option.some.inj h
    exact ⟨x', hx', .shallow (by omega)⟩
  · rw [if_neg hopen] at h hdepth
    by_cases hclose : c = closeBrace
    · rw [if_pos hclose] at h hdepth
      obtain rfl := Option.some.inj h
      by_cases hlast : depth ≤ 1
      · rw [if_pos hlast]
        subst hclose
        rcases next_closeBrace (by omega : s'.depth = 0) with h | h
        · exact ⟨_, h, .refl _⟩
        · exact ⟨_, h, .broken _⟩
      · rw [if_neg hlast]
        exact ⟨x', hx', .shallow (by omega)⟩
    · rw [if_neg hclose] at h hdepth
      obtain rfl := Option.some.inj h
      exact ⟨x', hx', .shallow (by omega)⟩

theorem next_lags (hlags : Lags s s') (h : style.next s c = some x) (hx : x ≠ .broken) :
    ∃ x', style.next s' c = some x' ∧ Lags x x' := by
  cases hlags with
  | @plain m n hle =>
      by_cases hquote : c = style.quote
      · subst hquote
        have hnext : style.nextPlain m style.quote = some x := h
        rw [nextPlain_quote] at hnext
        split at hnext
        · cases hnext
        · next hlength =>
            obtain rfl := Option.some.inj hnext
            refine ⟨.plain (n + 1), ?_, .plain (by omega)⟩
            show style.nextPlain n style.quote = _
            rw [nextPlain_quote, if_neg (by omega)]
      · refine ⟨x, ?_, .refl x⟩
        rw [← h]
        exact nextPlain_congr hquote n m
  | shielded => exact ⟨x, h, .refl x⟩
  | dollar => exact ⟨x, h, .refl x⟩
  | apart =>
      by_cases hbrace : c = openBrace
      · subst hbrace
        obtain rfl : Inside.braced 1 = x := Option.some.inj h
        obtain ⟨x', hx'⟩ := exists_nextPlain (k := 0) style.quote_special.2.2.2.1.symm
        exact ⟨x', hx', .shallow (by rw [depth_nextPlain hx']; exact Nat.one_pos)⟩
      · refine ⟨x, ?_, .refl x⟩
        rw [← h]
        exact (if_neg hbrace).symm
  | braced depth => exact ⟨x, h, .refl x⟩
  | shallow hdepth => exact next_shallow hdepth h
  | broken s => exact ⟨.broken, rfl, .broken x⟩

theorem run_lags (hlags : Lags s s') (h : style.run s t = some x) (hx : x ≠ .broken) :
    ∃ x', style.run s' t = some x' ∧ Lags x x' := by
  induction t generalizing s s' with
  | nil =>
      obtain rfl := Option.some.inj h
      exact ⟨s', rfl, hlags⟩
  | cons c t ih =>
      obtain ⟨y, hy, hrest⟩ := Option.bind_eq_some_iff.1 h
      have hbroken := ne_broken_of_run hrest hx
      obtain ⟨y', hy', hlags'⟩ := next_lags hlags hy hbroken
      rw [run_cons_some hy']
      exact ih hlags' hrest

theorem next_blank (hc : isAsciiBlank c = true) (s : Inside) :
    style.next s c = some s.settle ∨ style.next s c = some .broken := by
  by_cases hinert : isInert c = true
  · exact .inl (next_inert hinert s)
  · obtain rfl : c = '\n' := by
      simp only [isAsciiBlank, Bool.or_eq_true, beq_iff_eq] at hc
      rcases hc with (((rfl | rfl) | rfl) | rfl) | rfl <;> first | rfl | exact absurd rfl hinert
    have hplain (k : Nat) : style.nextPlain k '\n' = some (.plain 0) ∨
        style.nextPlain k '\n' = some .broken := by
      have hslash : '\n' ≠ backslash := by decide
      have hdollar : '\n' ≠ '$' := by decide
      have hquote := style.quote_special.2.1.symm
      simp only [nextPlain, hslash, hquote, hdollar, true_and, false_and, if_false]
      split
      · exact .inr rfl
      · exact .inl rfl
    cases s with
    | plain k => exact hplain k
    | shielded => exact .inl rfl
    | dollar => exact hplain 0
    | braced depth => exact .inl (by cases style <;> rfl)
    | broken => exact .inl rfl

theorem run_blanks {g : Text} (hg : ∀ c ∈ g, isAsciiBlank c = true) (hne : g ≠ []) (s : Inside) :
    style.run s g = some s.settle ∨ style.run s g = some .broken := by
  induction g generalizing s with
  | nil => exact absurd rfl hne
  | cons c g ih =>
      rcases next_blank (hg c (by simp)) s with h | h
      · rw [run_cons_some h]
        by_cases hnil : g = []
        · exact .inl (by rw [hnil]; rfl)
        · have hrest := ih (fun d hd => hg d (by simp [hd])) hnil s.settle
          rwa [settle_settle] at hrest
      · exact .inr (by rw [run_cons_some h, run_broken])

end QuoteStyle

end EmbeddedSql
