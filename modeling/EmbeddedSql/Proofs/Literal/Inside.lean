import EmbeddedSql.Literal.Extent

namespace EmbeddedSql

open Text

/-- What counts of the content that has been read. -/
inductive Inside where
  | plain (quotes : Nat)
  | shielded
  | dollar
  | braced (depth : Nat)
  | broken
  deriving DecidableEq, Repr

def Inside.isReady : Inside → Bool
  | .plain 0 | .dollar => true
  | _ => false

namespace QuoteStyle

def nextPlain (style : QuoteStyle) (quotes : Nat) (c : Char) : Option Inside :=
  if c = backslash then some .shielded
  else if c = style.quote then
    if style.delimiter.length ≤ quotes + 1 then none else some (.plain (quotes + 1))
  else if c = '\n' ∧ style.isBlock = false then some .broken
  else if c = '$' ∧ style = .template then some .dollar
  else some (.plain 0)

def next (style : QuoteStyle) : Inside → Char → Option Inside
  | .plain quotes, c => style.nextPlain quotes c
  | .shielded, _ => some (.plain 0)
  | .dollar, c => if c = openBrace then some (.braced 1) else style.nextPlain 0 c
  | .braced depth, c =>
      if c = style.quote then none
      else if c = openBrace then some (.braced (depth + 1))
      else if c = closeBrace then some (if depth ≤ 1 then .plain 0 else .braced (depth - 1))
      else some (.braced depth)
  | .broken, _ => some .broken

def run (style : QuoteStyle) : Inside → Text → Option Inside
  | s, [] => some s
  | s, c :: t => (style.next s c).bind fun s => style.run s t

theorem quote_special (style : QuoteStyle) :
    style.quote ≠ backslash ∧ style.quote ≠ '\n' ∧ style.quote ≠ '$' ∧
      style.quote ≠ openBrace ∧ style.quote ≠ closeBrace := by
  cases style <;> decide

variable {style : QuoteStyle}

theorem run_append (s : Inside) (a b : Text) :
    style.run s (a ++ b) = (style.run s a).bind fun s => style.run s b := by
  induction a generalizing s with
  | nil => rfl
  | cons c a ih =>
      rw [List.cons_append, run, run]
      cases style.next s c with
      | none => rfl
      | some s' => exact ih s'

theorem run_append_some {s s' : Inside} {a : Text} (h : style.run s a = some s') (b : Text) :
    style.run s (a ++ b) = style.run s' b := by
  rw [run_append, h]
  rfl

theorem run_cons_some {s s' : Inside} {c : Char} (h : style.next s c = some s') (t : Text) :
    style.run s (c :: t) = style.run s' t := by
  rw [run, h]
  rfl

theorem run_escape (k : Nat) (c : Char) (t : Text) :
    style.run (.plain k) (backslash :: c :: t) = style.run (.plain 0) t := by
  simp [run, next, nextPlain]

theorem exists_of_run_append {s s' : Inside} {a b : Text} (h : style.run s (a ++ b) = some s') :
    ∃ x, style.run s a = some x ∧ style.run x b = some s' := by
  rw [run_append] at h
  exact Option.bind_eq_some_iff.1 h

@[simp] theorem run_broken (t : Text) : style.run .broken t = some .broken := by
  induction t with
  | nil => rfl
  | cons c t ih => exact ih

theorem ne_broken_of_run {s s' : Inside} {t : Text} (h : style.run s t = some s')
    (hs' : s' ≠ .broken) : s ≠ .broken := by
  rintro rfl
  rw [run_broken] at h
  exact hs' (Option.some.inj h).symm

theorem run_concat (s : Inside) (t : Text) (c : Char) :
    style.run s (t ++ [c]) = (style.run s t).bind fun s => style.next s c := by
  rw [run_append]
  congr 1
  funext x
  simp [run]

theorem of_run {s s' : Inside} {t : Text} (h : style.run s t = some s') (ht : t ≠ []) :
    ∃ x c, t.getLast? = some c ∧ style.next x c = some s' := by
  obtain ⟨u, c, rfl⟩ := (List.eq_nil_or_concat t).resolve_left ht
  rw [List.concat_eq_append, run_concat] at h
  obtain ⟨x, -, hx⟩ := Option.bind_eq_some_iff.1 h
  exact ⟨x, c, by simp, hx⟩

theorem nextPlain_quote {k : Nat} : style.nextPlain k style.quote =
    if style.delimiter.length ≤ k + 1 then none else some (.plain (k + 1)) := by
  rw [nextPlain, if_neg style.quote_special.1, if_pos rfl]

theorem nextPlain_congr {c : Char} (hc : c ≠ style.quote) (k m : Nat) :
    style.nextPlain k c = style.nextPlain m c := by
  rw [nextPlain, nextPlain, if_neg hc, if_neg hc]

theorem exists_nextPlain {k : Nat} {c : Char} (hc : c ≠ style.quote) :
    ∃ s, style.nextPlain k c = some s := by
  rw [nextPlain, if_neg hc]
  split
  · exact ⟨_, rfl⟩
  · split
    · exact ⟨_, rfl⟩
    · split <;> exact ⟨_, rfl⟩

theorem getLast?_of_shielded {s : Inside} {t : Text} (h : style.run s t = some .shielded)
    (ht : t ≠ []) : t.getLast? = some backslash := by
  obtain ⟨x, c, hlast, hnext⟩ := of_run h ht
  suffices c = backslash by rw [hlast, this]
  cases x <;> grind [next, nextPlain]

theorem getLast?_of_plain {s : Inside} {t : Text} {k : Nat}
    (h : style.run s t = some (.plain (k + 1))) (ht : t ≠ []) :
    t.getLast? = some style.quote ∧ style.isTriple = true := by
  obtain ⟨x, c, hlast, hnext⟩ := of_run h ht
  have hquote : c = style.quote ∧ ¬ style.delimiter.length ≤ 1 := by
    cases x <;> grind [next, nextPlain]
  refine ⟨by rw [hlast, hquote.1], ?_⟩
  cases hstyle : style.isTriple with
  | true => rfl
  | false => simp [delimiter, hstyle] at hquote

theorem mem_of_broken {s : Inside} {t : Text} (h : style.run s t = some .broken)
    (hs : s ≠ .broken) : '\n' ∈ t ∧ style.isBlock = false := by
  induction t generalizing s with
  | nil => exact absurd (Option.some.inj h) hs
  | cons c t ih =>
      obtain ⟨x, hx, hrun⟩ := Option.bind_eq_some_iff.1 h
      by_cases hbroken : x = .broken
      · subst hbroken
        have hc : c = '\n' ∧ style.isBlock = false := by
          cases s <;> grind [next, nextPlain]
        exact ⟨by simp [hc.1], hc.2⟩
      · have hrest := ih hrun hbroken
        exact ⟨List.mem_cons_of_mem c hrest.1, hrest.2⟩

end QuoteStyle

end EmbeddedSql
