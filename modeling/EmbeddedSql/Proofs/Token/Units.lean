import Mathlib.Data.List.Infix
import EmbeddedSql.Proofs.Token.Escapes

namespace EmbeddedSql

open Text Lexer

namespace Text

def units : Text → List Text
  | [] => []
  | [c] => [[c]]
  | c :: d :: r => if c = backslash then [c, d] :: units r else [c] :: units (d :: r)

theorem units_flatten (t : Text) : (units t).flatten = t := by
  fun_induction units t with
  | case1 => rfl
  | case2 c => rfl
  | case3 d r ih => rw [List.flatten_cons, ih]; rfl
  | case4 c d r hc ih => rw [List.flatten_cons, ih]; rfl

theorem units_append {s : Text} (hs : endsUnpaired s = false) (t : Text) :
    units (s ++ t) = units s ++ units t := by
  fun_induction units s with
  | case1 => rfl
  | case2 c =>
      have hc : c ≠ backslash := by
        rintro rfl
        cases hs
      cases t with
      | nil => rfl
      | cons d t => exact if_neg hc
  | case3 d r ih =>
      have hr := ih ((endsUnpaired_append (s := [backslash, d]) rfl r).symm.trans hs)
      rw [List.cons_append, List.cons_append, units, if_pos rfl, hr]
      rfl
  | case4 c d r hc ih =>
      have hr := ih ((escapesUpToBlanks_cons hc (d :: r)).1.symm.trans hs)
      rw [List.cons_append, List.cons_append, units, if_neg hc, ← List.cons_append, hr]
      rfl

def IsUnitBoundary (t : Text) (n : Nat) : Prop :=
  n ∈ t.units.inits.map fun us => bytes us.flatten

instance (t : Text) (n : Nat) : Decidable (IsUnitBoundary t n) :=
  inferInstanceAs (Decidable (n ∈ _))

theorem isUnitBoundary_append {s : Text} (hs : endsUnpaired s = false) (t : Text) :
    IsUnitBoundary (s ++ t) s.bytes := by
  rw [IsUnitBoundary, units_append hs, List.mem_map]
  exact ⟨units s, (List.mem_inits _ _).2 (List.prefix_append _ _), by rw [units_flatten]⟩

theorem isUnitBoundary_bytes (t : Text) : IsUnitBoundary t t.bytes := by
  rw [IsUnitBoundary, List.mem_map]
  exact ⟨units t, (List.mem_inits _ _).2 List.prefix_rfl, by rw [units_flatten]⟩

theorem endsUnpaired_of_getLast? {s : Text} {c : Char} (hs : s.getLast? = some c)
    (hc : c ≠ backslash) : endsUnpaired s = false := by
  rw [Bool.eq_false_iff]
  intro hends
  exact hc (Option.some.inj (hs.symm.trans (getLast?_of_endsUnpaired hends)))

end Text

/-- Whether a token ends in a backslash of its own: one that stands alone, or the last character of
a comment up to the end of its line. -/
def Token.leavesShield (x : Token) : Bool :=
  x.isPunct backslash || (x.isLineComment && endsUnpaired x.text)

namespace Lexer

def BeginsBlank (t : Text) : Prop := (∀ d ∈ t.head?, isBlank d = true) ∨ blankTail t ≠ 0

theorem BeginsBlank.ne_backslashes {t : Text} (h : BeginsBlank (backslash :: backslash :: t)) :
    False := by
  rcases h with hblank | htail
  · exact absurd (hblank backslash rfl) (by decide)
  · exact htail rfl

theorem BlankRun.getLast? {t : Text} (h : BlankRun t) (ht : t ≠ []) :
    ∃ c, t.getLast? = some c ∧ c ≠ backslash := by
  induction h with
  | nil => exact absurd rfl ht
  | @blank c r hc _ ih =>
      by_cases hr : r = []
      · refine ⟨c, by rw [hr]; rfl, ?_⟩
        rintro rfl
        exact absurd hc (by decide)
      · obtain ⟨d, hd, hne⟩ := ih hr
        exact ⟨d, getLast?_cons_some hd, hne⟩
  | @escape c r hc _ ih =>
      by_cases hr : r = []
      · refine ⟨c, by rw [hr]; rfl, ?_⟩
        rintro rfl
        exact absurd hc (by decide)
      · obtain ⟨d, hd, hne⟩ := ih hr
        exact ⟨d, getLast?_cons_some (getLast?_cons_some hd), hne⟩

section

variable {v : Vocabulary} {k : TokenKind} {a u rest : Text}

theorem Reads.leavesShield (h : Reads k u rest) (hrest : rest ≠ [])
    (ha : endsUnpaired a = true → BeginsBlank (u ++ rest)) (hu : endsUnpaired (a ++ u) = true)
    (n : Nat) : (token v k u n).leavesShield = true ∧ BeginsBlank rest := by
  have hne : u ≠ [] := by
    obtain ⟨c, r, rfl, -⟩ := h
    simp
  have hlast : u.getLast? = some backslash := by
    have hwhole := getLast?_of_endsUnpaired hu
    rwa [List.getLast?_append_of_ne_nil _ hne] at hwhole
  have hk : k ≠ .blank := by
    rintro rfl
    obtain ⟨c, hc, hslash⟩ := h.blankRun.getLast? hne
    exact hslash (Option.some.inj (hc.symm.trans hlast))
  rcases h.of_backslash hk hrest hlast with ⟨rfl, hblank⟩ | rfl | ⟨⟨rfl, hdash⟩, htail⟩
  · refine ⟨?_, .inl hblank⟩
    have hkind := h.kind_of_backslash
    subst hkind
    rfl
  · -- two backslashes shield nothing more than what was shielded before them
    have hbefore : endsUnpaired a = true := by
      rw [endsUnpaired, shieldsFrom_append] at hu
      rw [endsUnpaired]
      cases hshield : shieldsFrom false a with
      | true => rfl
      | false =>
          rw [hshield] at hu
          cases hu
    exact (ha hbefore).ne_backslashes.elim
  · refine ⟨?_, .inr htail⟩
    obtain ⟨r, rfl⟩ := List.isPrefixOf_iff_prefix.1 hdash
    have hends : endsUnpaired (['-', '-'] ++ r) = true := by
      have hdashes : endsUnpaired (a ++ ['-', '-']) = false :=
        endsUnpaired_of_getLast? (c := '-') (by simp) (by decide)
      rwa [← List.append_assoc, endsUnpaired_append hdashes] at hu
    have hline : (token v .comment (['-', '-'] ++ r) n).isLineComment = true := rfl
    rw [Token.leavesShield, hline, token_text hk, hends]
    exact Bool.or_true _

theorem Reads.isUnitBoundary (h : Reads k u rest)
    (ha : endsUnpaired a = true → BeginsBlank (u ++ rest)) (n : Nat) :
    IsUnitBoundary (a ++ (u ++ rest)) (a ++ u).bytes ∨ (token v k u n).leavesShield = true := by
  rw [← List.append_assoc]
  by_cases hrest : rest = []
  · rw [hrest, List.append_nil]
    exact .inl (isUnitBoundary_bytes _)
  · cases hends : endsUnpaired (a ++ u) with
    | false => exact .inl (isUnitBoundary_append hends rest)
    | true => exact .inr (h.leavesShield hrest ha hends n).1

theorem tokensFrom_units {t : Text} (ha : endsUnpaired a = true → BeginsBlank t) :
    ((tokensFrom v a.bytes t).IsChain fun x y =>
      IsUnitBoundary (a ++ t) y.offset ∨ x.leavesShield = true) ∧
    ∀ x ∈ tokensFrom v a.bytes t, x.isSignificant = true →
      IsUnitBoundary (a ++ t) (x.offset + x.text.bytes) ∨ x.leavesShield = true := by
  induction htokens : tokensFrom v a.bytes t generalizing a t with
  | nil => exact ⟨.nil, by simp⟩
  | cons x ts ih =>
      obtain ⟨k, u, rest, rfl, hreads, rfl, hts⟩ := tokensFrom_eq_cons htokens
      rw [← bytes_append] at hts
      have hend := hreads.isUnitBoundary (v := v) ha a.bytes
      have hnext : endsUnpaired (a ++ u) = true → BeginsBlank rest := by
        intro hends
        by_cases hrest : rest = []
        · exact .inl (by simp [hrest])
        · exact (hreads.leavesShield (v := v) hrest ha hends 0).2
      obtain ⟨hchain, hends⟩ := ih hnext hts.symm
      rw [List.append_assoc] at hchain hends
      refine ⟨List.isChain_cons.2 ⟨?_, hchain⟩, List.forall_mem_cons.2 ⟨?_, hends⟩⟩
      · intro y hy
        rw [hts] at hy
        obtain ⟨ts, hcons⟩ := List.head?_eq_some_iff.1 hy
        obtain ⟨k', u', -, -, -, rfl, -⟩ := tokensFrom_eq_cons hcons
        rwa [token_offset k' u' 0]
      · intro hsig
        have hk : k ≠ .blank := by
          rintro rfl
          rw [token_isSignificant] at hsig
          cases hsig
        rw [token_text hk, show (token v k u a.bytes).offset = a.bytes by rw [token_offset k u 0],
          ← bytes_append]
        exact hend

end

theorem tokenize_units (v : Vocabulary) (t : Text) :
    (∀ x ∈ (v.tokenize t).head?, IsUnitBoundary t x.offset) ∧
    ((v.tokenize t).IsChain fun x y => IsUnitBoundary t y.offset ∨ x.isPunct backslash = true ∨
      x.isLineComment = true ∧ endsUnpaired x.text = true) ∧
    ∀ x ∈ v.tokenize t, x.kind = .literal ∨ x.kind = .comment ∧ x.isLineComment = false →
      IsUnitBoundary t (x.offset + x.text.bytes) := by
  have hstart : endsUnpaired [] = true → BeginsBlank t := by
    intro h
    cases h
  obtain ⟨hchain, hends⟩ := tokensFrom_units (v := v) (a := []) hstart
  refine ⟨?_, hchain.imp ?_, ?_⟩
  · intro x hx
    obtain ⟨ts, hcons⟩ := List.head?_eq_some_iff.1 hx
    obtain ⟨k, u, -, -, -, rfl, -⟩ := tokensFrom_eq_cons hcons
    rw [token_offset k u 0]
    exact isUnitBoundary_append (s := []) rfl t
  · intro x y h
    simpa [Token.leavesShield] using h
  · intro x hx hkind
    have hsig : x.isSignificant = true := by
      rcases hkind with hkind | ⟨hkind, -⟩ <;>
        simp [Token.isSignificant, TokenKind.isSignificant, hkind]
    refine (hends x hx hsig).resolve_right ?_
    rcases hkind with hkind | ⟨hkind, hline⟩
    · simp [Token.leavesShield, Token.isPunct, Token.isLineComment, hkind]
    · simp [Token.leavesShield, Token.isPunct, hkind, hline]

theorem tokenize_comment_inside_unit :
    let t := "-- x\\\ny".toList
    ({} : Vocabulary).tokenize t =
        [⟨.comment, "-- x\\".toList, 0⟩, ⟨.blank, [' '], 5⟩, ⟨.identifier, ['y'], 6⟩] ∧
      ¬IsUnitBoundary t 5 := by
  decide +kernel

end Lexer

end EmbeddedSql
