import EmbeddedSql.Proofs.Text.Trimming
import EmbeddedSql.Token.Lexer

namespace EmbeddedSql.Lexer

open Text

section Closed

variable {r rest : Text} (hrest : rest ≠ [])

theorem quotedTail_pos (q : Char) (doubled : Bool) {t : Text} (ht : t ≠ []) :
    0 < quotedTail q doubled t := by
  fun_cases quotedTail q doubled t <;> first | exact absurd rfl ht | omega

theorem escapedQuoteTail_pos (q : Char) {t : Text} (ht : t ≠ []) : 0 < escapedQuoteTail q t := by
  fun_cases escapedQuoteTail q t <;> first | exact absurd rfl ht | omega

theorem blockCommentTail_pos {t : Text} (ht : t ≠ []) : 0 < blockCommentTail t := by
  fun_cases blockCommentTail t <;> first | exact absurd rfl ht | omega

theorem bracedTail_pos (depth : Nat) {t : Text} (ht : t ≠ []) : 0 < bracedTail depth t := by
  fun_cases bracedTail depth t <;> first | exact absurd rfl ht | omega

include hrest

theorem quotedTail_local {q : Char} {doubled : Bool}
    (h : quotedTail q doubled (r ++ rest) = r.length) {rest' : Text}
    (hq : rest'.head? ≠ some q) : quotedTail q doubled (r ++ rest') = r.length := by
  obtain ⟨x, rest, rfl⟩ := List.exists_cons_of_ne_nil hrest
  fun_induction quotedTail q doubled r with
  | case1 =>
      have := quotedTail_pos q doubled (List.cons_ne_nil x rest)
      simp only [List.nil_append, List.length_nil] at h
      omega
  | case2 c =>
      have := quotedTail_pos q doubled (List.cons_ne_nil x rest)
      simp only [List.cons_append, List.nil_append, quotedTail, List.length_singleton] at h
      cases rest' with
      | nil => rfl
      | cons y rest' =>
          have hy : (y == q) = false := by simpa using hq
          simp only [List.cons_append, List.nil_append, quotedTail, List.length_singleton, hy]
          grind
  | case3 c d r hc ih =>
      simp only [List.cons_append, quotedTail, hc, if_true, List.length_cons] at h ⊢
      rw [ih (by omega)]
      omega
  | case4 c d r hc hq' hd ih =>
      simp only [List.cons_append, quotedTail, hc, hq', hd, if_true, List.length_cons,
        Bool.false_eq_true, if_false] at h ⊢
      rw [ih (by omega)]
      omega
  | case5 c d r hc hq' hd =>
      simp only [List.cons_append, quotedTail, hc, hq', hd, if_true, List.length_cons,
        Bool.false_eq_true, if_false] at h
      omega
  | case6 c d r hc hq' ih =>
      simp only [List.cons_append, quotedTail, hc, hq', List.length_cons, Bool.false_eq_true,
        if_false] at h ih ⊢
      rw [ih (by omega)]
      omega

theorem escapedQuoteTail_local {q : Char} (h : escapedQuoteTail q (r ++ rest) = r.length)
    (rest' : Text) : escapedQuoteTail q (r ++ rest') = r.length := by
  obtain ⟨x, rest, rfl⟩ := List.exists_cons_of_ne_nil hrest
  fun_induction escapedQuoteTail q r with
  | case1 =>
      have := escapedQuoteTail_pos q (List.cons_ne_nil x rest)
      simp only [List.nil_append, List.length_nil] at h
      omega
  | case2 c =>
      have := escapedQuoteTail_pos q (List.cons_ne_nil x rest)
      simp only [List.cons_append, List.nil_append, escapedQuoteTail, List.length_singleton] at h
      grind
  | case3 c d r hc hd =>
      simp only [List.cons_append, escapedQuoteTail, hc, hd, if_true, List.length_cons] at h ⊢
      omega
  | case4 c d r hc hd ih =>
      simp only [List.cons_append, escapedQuoteTail, hc, hd, if_true, List.length_cons,
        Bool.false_eq_true, if_false] at h ⊢
      rw [ih (by omega)]
      omega
  | case5 c d r hc ih =>
      simp only [List.cons_append, escapedQuoteTail, hc, List.length_cons, Bool.false_eq_true,
        if_false] at h ih ⊢
      rw [ih (by omega)]
      omega

theorem blockCommentTail_local (h : blockCommentTail (r ++ rest) = r.length) (rest' : Text) :
    blockCommentTail (r ++ rest') = r.length := by
  obtain ⟨x, rest, rfl⟩ := List.exists_cons_of_ne_nil hrest
  fun_induction blockCommentTail r with
  | case1 =>
      have := blockCommentTail_pos (List.cons_ne_nil x rest)
      simp only [List.nil_append, List.length_nil] at h
      omega
  | case2 c =>
      have := blockCommentTail_pos (List.cons_ne_nil x rest)
      simp only [List.cons_append, List.nil_append, blockCommentTail, List.length_singleton] at h
      grind
  | case3 c d r hc =>
      simp only [List.cons_append, blockCommentTail, hc, if_true, List.length_cons] at h ⊢
      omega
  | case4 c d r hc ih =>
      simp only [List.cons_append, blockCommentTail, hc, List.length_cons, Bool.false_eq_true,
        if_false] at h ih ⊢
      rw [ih (by omega)]
      omega

theorem bracedTail_local {depth : Nat} (h : bracedTail depth (r ++ rest) = r.length)
    (rest' : Text) : bracedTail depth (r ++ rest') = r.length := by
  fun_induction bracedTail depth r with
  | case1 depth =>
      have := bracedTail_pos depth hrest
      simp only [List.nil_append, List.length_nil] at h
      omega
  | case2 depth c r hc ih =>
      simp only [List.cons_append, bracedTail, hc, if_true, List.length_cons] at h ⊢
      rw [ih (by omega)]
      omega
  | case3 depth c r hc hd hle =>
      simp only [List.cons_append, bracedTail, hc, hd, hle, if_true, List.length_cons,
        Bool.false_eq_true, if_false] at h ⊢
      omega
  | case4 depth c r hc hd hle ih =>
      simp only [List.cons_append, bracedTail, hc, hd, hle, if_true, List.length_cons,
        Bool.false_eq_true, if_false] at h ⊢
      rw [ih (by omega)]
      omega
  | case5 depth c r hc hd ih =>
      simp only [List.cons_append, bracedTail, hc, hd, List.length_cons, Bool.false_eq_true,
        if_false] at h ⊢
      rw [ih (by omega)]
      omega

theorem delimitedTail_length {delimiter : Text}
    (h : delimitedTail delimiter (r ++ rest) = r.length) : delimiter.length ≤ r.length := by
  induction r with
  | nil =>
      obtain ⟨x, rest, rfl⟩ := List.exists_cons_of_ne_nil hrest
      simp only [List.nil_append, delimitedTail, List.length_nil] at h
      split at h <;> omega
  | cons c r ih =>
      simp only [List.cons_append, delimitedTail, List.length_cons] at h ⊢
      split at h
      · omega
      · have := ih (by omega)
        omega

theorem delimitedTail_local {delimiter : Text}
    (h : delimitedTail delimiter (r ++ rest) = r.length) (hd : delimiter ≠ []) (rest' : Text) :
    delimitedTail delimiter (r ++ rest') = r.length := by
  have startsWith_append {s u t : Text} (hle : s.length ≤ u.length) :
      startsWith (u ++ t) s = startsWith u s := by
    rw [Bool.eq_iff_iff]
    simp only [startsWith, List.isPrefixOf_iff_prefix]
    exact ⟨fun hp => List.prefix_of_prefix_length_le hp (List.prefix_append _ _) hle,
      fun hp => hp.trans (List.prefix_append _ _)⟩
  induction r with
  | nil =>
      have := delimitedTail_length hrest h
      simp_all
  | cons c r ih =>
      have hle := delimitedTail_length hrest h
      have hsame : startsWith (c :: (r ++ rest')) delimiter =
          startsWith (c :: (r ++ rest)) delimiter := by
        rw [← List.cons_append, ← List.cons_append, startsWith_append hle, startsWith_append hle]
      simp only [List.cons_append, delimitedTail, List.length_cons, hsame] at h ⊢
      split at h
      next hs => rw [if_pos hs]; exact h
      next hs => rw [if_neg hs, ih (by omega)]; omega

end Closed

theorem lineCommentTail_local {r rest rest' : Text}
    (h : lineCommentTail (r ++ rest) = r.length)
    (hrest' : rest' = [] ∨ rest'.head? = some '\n') :
    lineCommentTail (r ++ rest') = r.length := by
  induction r with
  | nil => cases rest' <;> simp_all [lineCommentTail]
  | cons c r ih =>
      simp only [List.cons_append, lineCommentTail, List.length_cons] at h ⊢
      split at h
      · omega
      next hc =>
        split at h
        · omega
        next hesc =>
          have hesc' : (c == backslash && ((r ++ rest').head? == some 'n' ||
              (r ++ rest').head? == some 'r')) = false := by
            cases r with
            | nil => rcases hrest' with rfl | hn <;> simp_all
            | cons d r => simpa using hesc
          rw [if_neg hc, if_neg (Bool.eq_false_iff.1 hesc'), ih (by omega)]
          omega

theorem takeWhile_local {p : Char → Bool} {r rest rest' : Text}
    (h : ((r ++ rest).takeWhile p).length = r.length) (hrest' : ∀ d ∈ rest'.head?, p d = false) :
    (r ++ rest').takeWhile p = r := by
  have hall : ∀ c ∈ r, p c = true := by
    induction r with
    | nil => simp
    | cons c r ih =>
        simp only [List.cons_append, List.takeWhile_cons] at h
        split at h
        next hc =>
          intro d hd
          rcases List.mem_cons.1 hd with rfl | hd
          · exact hc
          · exact ih (by simpa using h) d hd
        · simp at h
  exact takeWhile_run hall hrest'

def endsNumber (c : Char) : Bool := !isWordChar c && c != '.' && c != '+' && c != '-'

/-- A function that takes a part off the front of a text, and looks at `x` behind the text only if
it takes all the text or `x` goes on with a part of a number. -/
structure TakesFront (f : Text → Text) : Prop where
  shrinks : ∀ t, (f t).length ≤ t.length
  within : ∀ s x, x.length ≤ (f (s ++ x)).length → f (s ++ x) = f s ++ x
  stops : ∀ s x, (∀ d ∈ x.head?, endsNumber d = true) → f (s ++ x) = f s ++ x

structure TakesPart (g : Text → Option Text) : Prop where
  shrinks : ∀ t, ∀ u ∈ g t, u.length ≤ t.length
  within : ∀ s x, (∀ u ∈ g (s ++ x), x.length ≤ u.length) → g (s ++ x) = (g s).map (· ++ x)
  stops : ∀ s x, (∀ d ∈ x.head?, endsNumber d = true) → g (s ++ x) = (g s).map (· ++ x)

namespace TakesFront

theorem comp {f g : Text → Text} (hf : TakesFront f) (hg : TakesFront g) :
    TakesFront (fun t => g (f t)) where
  shrinks t := Nat.le_trans (hg.shrinks _) (hf.shrinks t)
  within s x h := by
    have hfx := hf.within s x (Nat.le_trans h (hg.shrinks _))
    rw [hfx] at h ⊢
    exact hg.within _ x h
  stops s x hx := by rw [hf.stops s x hx, hg.stops _ x hx]

theorem part {f : Text → Text} (hf : TakesFront f) : TakesPart fun t => some (f t) where
  shrinks t _ hu := Option.some.inj hu ▸ hf.shrinks t
  within s x h := congrArg some (hf.within s x (h _ rfl))
  stops s x hx := congrArg some (hf.stops s x hx)

theorem dropWhile {p : Char → Bool} (hp : ∀ c, p c = true → isWordChar c = true) :
    TakesFront (List.dropWhile p) where
  shrinks t := (List.dropWhile_suffix p).length_le
  within s x h := by
    induction s with
    | nil => exact (List.dropWhile_suffix p).eq_of_length_le h
    | cons c s ih =>
        simp only [List.cons_append, List.dropWhile_cons] at h ⊢
        split at h
        next hc => rw [if_pos hc, if_pos hc]; exact ih h
        next hc => rw [if_neg hc, if_neg hc]; rfl
  stops s x hx := by
    induction s with
    | nil =>
        cases x with
        | nil => rfl
        | cons d x =>
            have hd : p d = false := by
              have := hx d (by simp)
              cases hpd : p d with
              | false => rfl
              | true => simp [endsNumber, hp d hpd] at this
            simp [hd]
    | cons c s ih =>
        simp only [List.cons_append, List.dropWhile_cons]
        split
        · exact ih
        · rfl

theorem dropDigits : TakesFront Lexer.dropDigits :=
  dropWhile fun c hc => by simp [Lexer.isWordChar, Char.isAlphanum, hc]

theorem behind {p : Char → Bool} {f : Text → Text} {g : Text → Option Text}
    (hp : ∀ c, p c = true → endsNumber c = false) (hg : TakesPart g) (hnil : f [] = [])
    (hcons : ∀ c r, f (c :: r) = if p c then (g r).getD (c :: r) else c :: r) :
    TakesFront f where
  shrinks t := by
    cases t with
    | nil => rw [hnil]
    | cons c r =>
        rw [hcons]
        split
        · cases hr : g r with
          | none => exact Nat.le_refl _
          | some u => exact Nat.le_succ_of_le (hg.shrinks r u hr)
        · exact Nat.le_refl _
  within s x h := by
    cases s with
    | nil =>
        rw [List.nil_append] at h ⊢
        cases x with
        | nil => rw [hnil]; rfl
        | cons c r =>
            rw [hcons] at h ⊢
            rw [hnil, List.nil_append]
            split at h
            next hc =>
              cases hr : g r with
              | none => rw [if_pos hc]; rfl
              | some u =>
                  have hle := hg.shrinks r u hr
                  rw [hr, List.length_cons] at h
                  exact absurd h (Nat.not_le_of_lt (Nat.lt_succ_of_le hle))
            next hc => rw [if_neg hc]
    | cons c s =>
        rw [List.cons_append, hcons] at h ⊢
        rw [hcons]
        split at h
        next hc =>
          have hpart := hg.within s x fun u hu => by rwa [Option.mem_def.1 hu] at h
          rw [if_pos hc, if_pos hc, hpart]
          cases g s <;> rfl
        next hc => rw [if_neg hc, if_neg hc]; rfl
  stops s x hx := by
    cases s with
    | nil =>
        rw [List.nil_append, hnil, List.nil_append]
        cases x with
        | nil => exact hnil
        | cons d r =>
            have hd : ¬p d = true := fun hd => by simpa [hp d hd] using hx d (by simp)
            rw [hcons, if_neg hd]
    | cons c s =>
        rw [List.cons_append, hcons, hcons, hg.stops s x hx]
        split
        · cases g s <;> rfl
        · rfl

theorem dropFraction : TakesFront Lexer.dropFraction :=
  behind (p := (· == '.')) (fun c hc => by simp [endsNumber, beq_iff_eq.1 hc]) dropDigits.part rfl
    fun _ _ => rfl

def afterSign : Text → Text
  | [] => []
  | c :: r => if c == '+' || c == '-' then r else c :: r

theorem dropExponent_cons (c : Char) (r : Text) : Lexer.dropExponent (c :: r) =
    if c == 'e' || c == 'E' then
      if (afterSign r).head?.any Char.isDigit then Lexer.dropDigits (afterSign r) else c :: r
    else c :: r := by
  cases r <;> rfl

theorem afterSign_length (t : Text) : (afterSign t).length ≤ t.length := by
  fun_cases afterSign t <;> simp_all

theorem afterSign_append {s : Text} (hs : s ≠ []) (x : Text) :
    afterSign (s ++ x) = afterSign s ++ x := by
  obtain ⟨c, s, rfl⟩ := List.exists_cons_of_ne_nil hs
  simp only [List.cons_append, afterSign]
  split <;> rfl

theorem dropDigits_length {t : Text} (ht : t.head?.any Char.isDigit = true) :
    (Lexer.dropDigits t).length < t.length := by
  cases t with
  | nil => simp at ht
  | cons c t =>
      have hc : c.isDigit = true := by simpa using ht
      have := dropDigits.shrinks t
      simp only [Lexer.dropDigits, List.dropWhile_cons, hc, if_true, List.length_cons] at this ⊢
      omega

theorem afterSign_within {s x : Text}
    (h : (afterSign (s ++ x)).head?.any Char.isDigit = true →
      x.length ≤ (Lexer.dropDigits (afterSign (s ++ x))).length) :
    ((afterSign (s ++ x)).head?.any Char.isDigit = true ↔
        (afterSign s).head?.any Char.isDigit = true) ∧
      ((afterSign s).head?.any Char.isDigit = true → afterSign (s ++ x) = afterSign s ++ x) := by
  by_cases hs : s = []
  · subst hs
    refine ⟨⟨fun hd => ?_, by simp [afterSign]⟩, by simp [afterSign]⟩
    have h₁ := h hd
    have h₂ := dropDigits_length hd
    have h₃ := afterSign_length x
    simp only [List.nil_append] at h₁ h₂
    omega
  · have happ := afterSign_append hs x
    rw [happ] at h ⊢
    refine ⟨⟨fun hd => ?_, fun hd => ?_⟩, fun _ => rfl⟩
    · cases hsign : afterSign s with
      | nil =>
          rw [hsign] at h hd
          have h₁ := h hd
          have h₂ := dropDigits_length hd
          simp only [List.nil_append] at h₁ h₂
          omega
      | cons d r => rw [hsign] at hd; simpa using hd
    · cases hsign : afterSign s with
      | nil => rw [hsign] at hd; simp at hd
      | cons d r => rw [hsign] at hd; simpa using hd

def exponent? (r : Text) : Option Text :=
  if (afterSign r).head?.any Char.isDigit then some (Lexer.dropDigits (afterSign r)) else none

theorem exponent?_takesPart : TakesPart exponent? where
  shrinks t u hu := by
    obtain ⟨-, hu⟩ := Option.ite_none_right_eq_some.1 hu
    rw [← Option.some.inj hu]
    exact Nat.le_trans (dropDigits.shrinks _) (afterSign_length t)
  within s x h := by
    unfold exponent? at h ⊢
    obtain ⟨hiff, happ⟩ := afterSign_within (s := s) (x := x) fun hd => h _ (if_pos hd)
    by_cases hd : (afterSign s).head?.any Char.isDigit = true
    · rw [if_pos (hiff.2 hd), happ hd] at h ⊢
      rw [if_pos hd]
      exact congrArg some (dropDigits.within _ x (h _ rfl))
    · rw [if_neg hd, if_neg fun hd' => hd (hiff.1 hd')]
      rfl
  stops s x hx := by
    have hsign : afterSign (s ++ x) = afterSign s ++ x := by
      by_cases hs : s = []
      · subst hs
        cases x with
        | nil => rfl
        | cons d x =>
            have hd := hx d (by simp)
            simp_all [endsNumber, afterSign]
      · exact afterSign_append hs x
    have hdigit :
        (afterSign s ++ x).head?.any Char.isDigit = (afterSign s).head?.any Char.isDigit := by
      cases afterSign s with
      | cons d r => rfl
      | nil =>
          cases x with
          | nil => rfl
          | cons d x =>
              have hd := hx d (by simp)
              simp_all [endsNumber, isWordChar, Char.isAlphanum]
    unfold exponent?
    rw [hsign, hdigit, dropDigits.stops _ x hx]
    split <;> rfl

theorem dropExponent : TakesFront Lexer.dropExponent := by
  refine behind (p := fun c => c == 'e' || c == 'E') (fun c hc => ?_) exponent?_takesPart rfl
    fun c r => ?_
  · rcases Bool.or_eq_true_iff.1 hc with hc | hc <;> rw [beq_iff_eq.1 hc] <;> rfl
  · rw [dropExponent_cons, exponent?]
    split
    · split <;> rfl
    · rfl

end TakesFront

theorem TakesFront.tail {f : Text → Text} (hf : TakesFront f) {r rest rest' : Text}
    (h : (r ++ rest).length - (f (r ++ rest)).length = r.length)
    (hrest' : ∀ d ∈ rest'.head?, endsNumber d = true) :
    (r ++ rest').length - (f (r ++ rest')).length = r.length := by
  have hle := hf.shrinks (r ++ rest)
  have hlen : (f (r ++ rest)).length = rest.length := by
    simp only [List.length_append] at h hle
    omega
  have hr : f r = [] := by
    have hwithin := hf.within r rest (by omega)
    rw [hwithin, List.length_append] at hlen
    exact List.length_eq_zero_iff.1 (by omega)
  rw [hf.stops r rest' hrest', hr]
  simp

def decimalRest (c : Char) (t : Text) : Text :=
  if c == '.' then (dropExponent (dropDigits t)).dropWhile isWordChar
  else (dropExponent (dropFraction (dropDigits t))).dropWhile isWordChar

theorem takesFront_decimalRest (c : Char) : TakesFront (decimalRest c) := by
  have hword : TakesFront (List.dropWhile isWordChar) := .dropWhile fun _ h => h
  unfold decimalRest
  split
  · exact (TakesFront.dropDigits.comp .dropExponent).comp hword
  · exact ((TakesFront.dropDigits.comp .dropFraction).comp .dropExponent).comp hword

def hexRest (t : Text) : Text := (t.dropWhile Char.isHexDigit).dropWhile isWordChar

theorem isWordChar_of_isHexDigit {c : Char} (hc : c.isHexDigit = true) : isWordChar c = true := by
  rcases isHexDigit_iff_toNat.1 hc with hdigit | hle
  · simp [isWordChar, Char.isAlphanum, hdigit]
  · have halpha : c.isAlpha = true := isAlpha_iff_toNat.2 (by omega)
    simp [isWordChar, Char.isAlphanum, halpha]

theorem takesFront_hexRest : TakesFront hexRest :=
  (TakesFront.dropWhile fun _ h => isWordChar_of_isHexDigit h).comp (.dropWhile fun _ h => h)

theorem numberTail_eq (c : Char) (t : Text) : numberTail c t =
    if c == '0' && (t.head? == some 'x' || t.head? == some 'X') then
      t.length - (hexRest (t.drop 1)).length
    else t.length - (decimalRest c t).length := by
  unfold numberTail decimalRest hexRest
  dsimp only
  split
  · rfl
  · split <;> rfl

theorem numberTail_point_ne_zero {d : Char} (hd : d.isDigit = true) (t : Text) :
    numberTail '.' (d :: t) ≠ 0 := by
  have hdrop := TakesFront.dropDigits_length (t := d :: t) (by simpa using hd)
  have hle := (TakesFront.dropExponent.comp (.dropWhile (p := isWordChar) fun _ h => h)).shrinks
    (dropDigits (d :: t))
  rw [numberTail_eq, if_neg (by simp), decimalRest, if_pos (by decide)]
  omega

theorem numberTail_local {c : Char} {r rest rest' : Text}
    (h : numberTail c (r ++ rest) = r.length)
    (hrest' : ∀ d ∈ rest'.head?, endsNumber d = true) :
    numberTail c (r ++ rest') = r.length := by
  rw [numberTail_eq] at h ⊢
  cases r with
  | nil =>
      have hhex : (c == '0' && (rest'.head? == some 'x' || rest'.head? == some 'X')) = false := by
        rw [Bool.eq_false_iff]
        intro hx
        simp only [Bool.and_eq_true, Bool.or_eq_true, beq_iff_eq] at hx
        rcases hx.2 with hx | hx <;> exact absurd (hrest' _ hx) (by decide)
      simp only [List.nil_append] at h ⊢
      rw [hhex]
      split at h
      next hx =>
        have hle := takesFront_hexRest.shrinks (rest.drop 1)
        cases rest with
        | nil => simp at hx
        | cons d rest =>
            simp only [List.drop_succ_cons, List.drop_zero, List.length_cons,
              List.length_nil] at h hle
            omega
      · exact (takesFront_decimalRest c).tail (r := []) h hrest'
  | cons d r =>
      simp only [List.cons_append, List.head?_cons, List.drop_succ_cons, List.drop_zero,
        List.length_cons] at h ⊢
      split at h
      next hx =>
        have hle := takesFront_hexRest.shrinks (r ++ rest)
        have hle' := takesFront_hexRest.shrinks (r ++ rest')
        have hhex : (r ++ rest).length - (hexRest (r ++ rest)).length = r.length := by omega
        have hhex' := takesFront_hexRest.tail hhex hrest'
        rw [if_pos hx]
        omega
      next hx => rw [if_neg hx]; exact (takesFront_decimalRest c).tail (r := d :: r) h hrest'

end EmbeddedSql.Lexer
