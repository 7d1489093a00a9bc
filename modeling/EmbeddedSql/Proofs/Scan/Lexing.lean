import Mathlib.Data.List.Find
import EmbeddedSql.Proofs.Scan.Characters
import EmbeddedSql.Proofs.Scan.Searching
import EmbeddedSql.Proofs.Token.Reading

namespace EmbeddedSql

open Text

namespace Lexer

open Scan

def blankEnd (bs : List UInt8) (i : Nat) : Nat :=
  if i < bs.length then
    if bs[i]?.any fun b => isAsciiBlank (Char.ofUInt8 b) then blankEnd bs (i + 1)
    else if bs[i]? = some backslashByte ∧
        bs[i + 1]?.any (fun b => isBlankEscape (Char.ofUInt8 b)) then
      blankEnd bs (i + 2)
    else i
  else i
termination_by bs.length - i

def lineCommentEnd (bs : List UInt8) (i : Nat) : Nat :=
  leap [newlineByte, backslashByte]
    (fun p =>
      if bs[p]? = some newlineByte ∨ bs[p + 1]? = some 'n'.toUInt8 ∨
          bs[p + 1]? = some 'r'.toUInt8 then .stop p
      else .on 0)
    bs.length bs i

def blockCommentEnd (bs : List UInt8) : Nat := findEnd (['*', '/'].map Char.toUInt8) bs 2

def fractionEnd (bs : List UInt8) (i : Nat) : Nat :=
  if bs[i]? = some '.'.toUInt8 then runEnd Char.isDigit bs (i + 1) else i

def exponentEnd (bs : List UInt8) (i : Nat) : Nat :=
  if bs[i]? = some 'e'.toUInt8 ∨ bs[i]? = some 'E'.toUInt8 then
    let j :=
      if bs[i + 1]? = some '+'.toUInt8 ∨ bs[i + 1]? = some '-'.toUInt8 then i + 2 else i + 1
    if bs[j]?.any fun b => (Char.ofUInt8 b).isDigit then runEnd Char.isDigit bs j else i
  else i

def numberEnd (bs : List UInt8) : Nat :=
  let i :=
    if bs[0]? = some '0'.toUInt8 ∧ (bs[1]? = some 'x'.toUInt8 ∨ bs[1]? = some 'X'.toUInt8) then
      runEnd Char.isHexDigit bs 2
    else exponentEnd bs (fractionEnd bs (runEnd Char.isDigit bs 0))
  runEnd isWordChar bs i

def dollarEnd (bs : List UInt8) : Nat :=
  let i := runEnd isWordChar bs 1
  if bs[i]? = some '$'.toUInt8 then
    findEnd (bs.take (i + 1)) bs (i + 1)
  else 0

def byteSlice? (bs : List UInt8) (start stop : Nat) : Option (List UInt8) :=
  if start ≤ stop ∧ stop ≤ bs.length then some ((bs.take stop).drop start) else none

def placeholderEnd? (bs : List UInt8) : Option Nat :=
  match find? [')'.toUInt8] bs 0 with
  | none => some 0
  | some close => do
      let name ← byteSlice? bs 2 close
      if name.isEmpty || !name.all fun b => isWordChar (Char.ofUInt8 b) then some 0
      else if bs[close + 1]?.any fun b => (Char.ofUInt8 b).isAlpha then some (close + 2)
      else some 0

def operatorEnd (bs : List UInt8) : Nat :=
  match longOperators.find? fun op => (utf8 op).isPrefixOf bs with
  | some op => op.bytes
  | none => 1

def identifierEnd (t : Text) : Nat := bytes (t.takeWhile isIdentifierChar)

def firstCharLength (t : Text) : Nat := (t.head?.map Char.utf8Size).getD 1

theorem utf8Size_of_isWordChar {c : Char} (h : isWordChar c = true) : c.utf8Size = 1 := by
  rw [isWordChar, Char.isAlphanum, Bool.or_eq_true, Bool.or_eq_true, isAlpha_iff_toNat,
    Char.isDigit_iff_toNat, beq_iff_eq] at h
  refine Char.utf8Size_eq_one_iff.2 (show c.toNat ≤ 0x7f from ?_)
  have hnine : '9'.toNat = 57 := rfl
  have hline : '_'.toNat = 95 := rfl
  rcases h with (h | h) | rfl <;> omega

theorem agrees_of_word {q : Char → Bool} (hq : ∀ c, q c = true → isWordChar c = true) :
    Agrees (fun b => q (Char.ofUInt8 b)) q :=
  agrees_of_single fun c hc => utf8Size_of_isWordChar (hq c hc)

theorem isWordChar_of_isAlpha {c : Char} (h : c.isAlpha = true) : isWordChar c = true := by
  simp [isWordChar, Char.isAlphanum, h]

theorem isWordChar_of_isDigit {c : Char} (h : c.isDigit = true) : isWordChar c = true := by
  simp [isWordChar, Char.isAlphanum, h]

theorem isWordChar_of_startsIdentifier {c : Char} (h : startsIdentifier c = true) :
    isWordChar c = true := by
  rcases Bool.or_eq_true_iff.1 h with h | h
  · exact isWordChar_of_isAlpha h
  · simp [isWordChar, h]

theorem utf8Size_of_isAsciiBlank {c : Char} (h : isAsciiBlank c = true) : c.utf8Size = 1 := by
  simp only [isAsciiBlank, Bool.or_eq_true, beq_iff_eq] at h
  rcases h with (((rfl | rfl) | rfl) | rfl) | rfl <;> rfl

theorem utf8Size_of_isBlankEscape {c : Char} (h : isBlankEscape c = true) : c.utf8Size = 1 := by
  simp only [isBlankEscape, Bool.or_eq_true, beq_iff_eq] at h
  rcases h with (rfl | rfl) | rfl <;> rfl

variable {t u r : Text} {i : Nat} {c : Char}

theorem blankTail_cons_blank (hc : isAsciiBlank c = true) (r : Text) :
    blankTail (c :: r) = 1 + blankTail r := by
  cases r <;> simp [blankTail, hc]

theorem blankEnd_cons (h : RestAt t i (c :: r)) :
    blankEnd (utf8 t) i =
      if isAsciiBlank c then blankEnd (utf8 t) (i + 1)
      else if c == backslash && r.head?.any isBlankEscape then blankEnd (utf8 t) (i + 2)
      else i := by
  have hblank := h.any_getElem?_utf8 (agrees_of_single fun _ => utf8Size_of_isAsciiBlank)
  have hslash : (utf8 t)[i]? = some backslashByte ↔ c = backslash := by
    rw [show backslashByte = backslash.toUInt8 from rfl, h.byteAt_iff rfl, List.head?_cons,
      Option.some_inj]
  rw [blankEnd, if_pos h.lt_length, hblank]
  by_cases hc : c = backslash
  · subst hc
    have hnext : RestAt t (i + 1) r := h.cons
    rw [hnext.any_getElem?_utf8 (agrees_of_single fun _ => utf8Size_of_isBlankEscape)]
    simp [hslash]
  · simp [hslash, hc]

theorem blankEnd_nil (h : RestAt t i []) : blankEnd (utf8 t) i = i := by
  rw [blankEnd, if_neg (Nat.not_lt.2 (Nat.le_of_eq h.eq_length.symm))]

theorem blankEnd_utf8 (h : RestAt t i u) :
    blankEnd (utf8 t) i = i + bytes (u.take (blankTail u)) := by
  fun_induction blankTail u generalizing i with
  | case1 => exact blankEnd_nil h
  | case2 c hc =>
      have hsize := utf8Size_of_isAsciiBlank hc
      rw [blankEnd_cons h, if_pos hc, blankEnd_nil (h.next hsize), List.take_one, List.head?_cons,
        Option.toList_some, bytes_cons, hsize]
      rfl
  | case3 c hc => simp [blankEnd_cons h, hc]
  | case4 c d r hc ih =>
      have hsize := utf8Size_of_isAsciiBlank hc
      rw [blankEnd_cons h, if_pos hc, ih (h.next hsize), add_bytes_take_cons, hsize]
  | case5 c d r hc hescape ih =>
      obtain ⟨hslash, hd⟩ := Bool.and_eq_true_iff.1 hescape
      obtain rfl := beq_iff_eq.1 hslash
      have hsize := utf8Size_of_isBlankEscape hd
      have hrest : RestAt t (i + 2) r := (h.next rfl).next hsize
      rw [blankEnd_cons h, if_neg hc, if_pos (by simpa using hd), ih hrest, Nat.add_assoc 1 1,
        add_bytes_take_cons, add_bytes_take_cons, hsize]
      rfl
  | case6 c d r hc hescape => simp_all [blankEnd_cons h]

theorem lineCommentEnd_cons (h : RestAt t i (c :: r)) :
    lineCommentEnd (utf8 t) i =
      if c == '\n' then i
      else if c == backslash && (r.head? == some 'n' || r.head? == some 'r') then i
      else lineCommentEnd (utf8 t) (i + c.utf8Size) := by
  by_cases hc : c = '\n'
  · subst hc
    have hbyte : (utf8 t)[i]? = some newlineByte := (h.byteAt_iff (w := '\n') rfl).2 rfl
    rw [lineCommentEnd, leap_land (b := newlineByte) h.drop_utf8 (by simp), if_pos (.inl hbyte)]
    rfl
  by_cases hslash : c = backslash
  · subst hslash
    have hnext : RestAt t (i + 1) r := h.next rfl
    have hbyte : (utf8 t)[i]? = some backslashByte := (h.byteAt_iff (w := backslash) rfl).2 rfl
    have hline : ¬(utf8 t)[i]? = some newlineByte := by rw [hbyte]; decide
    rw [lineCommentEnd, leap_land (b := backslashByte) h.drop_utf8 (by simp)]
    simp only [hline, hnext.byteAt_iff (w := 'n') rfl, hnext.byteAt_iff (w := 'r') rfl, false_or]
    by_cases hescape : r.head? = some 'n' ∨ r.head? = some 'r'
    · simp [hescape]
    · rw [if_neg hescape, if_neg (by decide), if_neg (by simpa using hescape)]
      rfl
  · have hskip : lineCommentEnd (utf8 t) i = lineCommentEnd (utf8 t) (i + c.utf8Size) :=
      h.skip ['\n', backslash] (fun i b r => leap_idle) (forall_utf8Size rfl)
        (by simp [hc, hslash])
    rw [hskip, if_neg (by simpa using hc), if_neg (by simp [hslash])]

theorem lineCommentEnd_utf8 (h : RestAt t i u) :
    lineCommentEnd (utf8 t) i = i + bytes (u.take (lineCommentTail u)) := by
  induction u generalizing i with
  | nil =>
      rw [lineCommentEnd, leap_of_length_le (Nat.le_of_eq h.eq_length.symm), ← h.eq_length]
      rfl
  | cons c r ih =>
      rw [lineCommentEnd_cons h, lineCommentTail]
      split
      · rfl
      · split
        · rfl
        · rw [ih h.cons, add_bytes_take_cons]

theorem blockCommentEnd_utf8 (h : RestAt t 2 u) :
    RestAt t (blockCommentEnd (utf8 t)) (u.drop (blockCommentTail u)) := by
  rw [blockCommentTail_eq]
  exact findEnd_utf8 (forall_utf8Size rfl) h

theorem fractionEnd_utf8 (h : RestAt t i u) :
    RestAt t (fractionEnd (utf8 t) i) (dropFraction u) := by
  have hdigit := agrees_of_word fun c => isWordChar_of_isDigit (c := c)
  rw [fractionEnd]
  simp only [h.byteAt_iff (w := '.') rfl]
  cases u with
  | nil => exact h
  | cons c r =>
      by_cases hc : c = '.'
      · subst hc
        exact runEnd_utf8 hdigit (h.next rfl)
      · simpa [dropFraction, hc] using h

theorem exponentEnd_utf8 (h : RestAt t i u) :
    RestAt t (exponentEnd (utf8 t) i) (dropExponent u) := by
  have hdigit := agrees_of_word fun c => isWordChar_of_isDigit (c := c)
  rw [exponentEnd]
  simp only [h.byteAt_iff (w := 'e') rfl, h.byteAt_iff (w := 'E') rfl]
  cases u with
  | nil => exact h
  | cons c r =>
      rw [TakesFront.dropExponent_cons]
      by_cases hc : c = 'e' ∨ c = 'E'
      · have hsize : c.utf8Size = 1 := by rcases hc with rfl | rfl <;> rfl
        have hnext := h.next hsize
        have hsign : RestAt t (if r.head? = some '+' ∨ r.head? = some '-' then i + 2 else i + 1)
            (TakesFront.afterSign r) := by
          cases r with
          | nil => exact hnext
          | cons s r =>
              by_cases hs : s = '+' ∨ s = '-'
              · have hsize : s.utf8Size = 1 := by rcases hs with rfl | rfl <;> rfl
                simpa [TakesFront.afterSign, hs] using hnext.next hsize
              · simpa [TakesFront.afterSign, hs] using hnext
        simp only [hnext.byteAt_iff (w := '+') rfl, hnext.byteAt_iff (w := '-') rfl,
          hsign.any_getElem?_utf8 hdigit]
        rw [if_pos (show (c :: r).head? = some 'e' ∨ (c :: r).head? = some 'E' by simpa using hc),
          if_pos (show (c == 'e' || c == 'E') = true by simpa using hc)]
        split
        · exact runEnd_utf8 hdigit hsign
        · exact h
      · rw [if_neg (show ¬((c :: r).head? = some 'e' ∨ _) by simpa using hc),
          if_neg (by simpa using hc)]
        exact h

theorem numberEnd_utf8 (c : Char) (r : Text) (hc : c.isDigit = true ∨ c = '.') :
    numberEnd (utf8 (c :: r)) = bytes (c :: r.take (numberTail c r)) := by
  have hstart := RestAt.start (c :: r)
  have hsize : c.utf8Size = 1 := by
    rcases hc with hc | rfl
    · exact utf8Size_of_isWordChar (isWordChar_of_isDigit hc)
    · rfl
  have hnext : RestAt (c :: r) 1 r := hstart.next hsize
  have hword := agrees_of_word fun _ h => h
  rw [numberEnd, numberTail_eq]
  simp only [hstart.byteAt_iff (w := '0') rfl, hnext.byteAt_iff (w := 'x') rfl,
    hnext.byteAt_iff (w := 'X') rfl]
  by_cases hhex : c = '0' ∧ (r.head? = some 'x' ∨ r.head? = some 'X')
  · rw [if_pos (by simpa using hhex), if_pos (by simpa using hhex)]
    obtain ⟨d, hd, hsize'⟩ : ∃ d, r.head? = some d ∧ d.utf8Size = 1 := by
      rcases hhex.2 with h | h <;> exact ⟨_, h, rfl⟩
    obtain ⟨r, rfl⟩ := List.head?_eq_some_iff.1 hd
    have hrun := runEnd_utf8 (agrees_of_word fun _ => isWordChar_of_isHexDigit) (hnext.next hsize')
    exact (runEnd_utf8 hword hrun).eq_bytes (Nat.le_succ_of_le (takesFront_hexRest.shrinks r))
  · rw [if_neg (by simpa using hhex), if_neg (by simpa using hhex)]
    have hdigits := runEnd_utf8 (agrees_of_word fun _ => isWordChar_of_isDigit) hstart
    have hrun := runEnd_utf8 hword (exponentEnd_utf8 (fractionEnd_utf8 hdigits))
    have hrest : (dropExponent (dropFraction ((c :: r).dropWhile Char.isDigit))).dropWhile
        isWordChar = decimalRest c r := by
      rcases hc with hc | rfl
      · have hpoint : c ≠ '.' := by rintro rfl; cases hc
        simp [decimalRest, hpoint, hc, dropDigits]
      · rfl
    rw [hrest] at hrun
    exact hrun.eq_bytes ((takesFront_decimalRest c).shrinks r)

theorem dollarEnd_utf8 (r : Text) :
    dollarEnd (utf8 ('$' :: r)) =
      ((dollarTail? r).map fun n => bytes ('$' :: r.take n)).getD 0 := by
  have hstart := RestAt.start ('$' :: r)
  have hrun := runEnd_utf8 (agrees_of_word fun _ h => h) (hstart.next rfl)
  rw [dollarEnd]
  simp only [hrun.byteAt_iff (w := '$') rfl]
  generalize runEnd isWordChar (utf8 ('$' :: r)) 1 = k at hrun ⊢
  cases htail : dollarTail? r with
  | some n =>
      obtain ⟨tag, body, htag, rfl, rfl⟩ := dollarTail?_eq_some htail
      have hdrop : (tag ++ '$' :: body).dropWhile isWordChar = '$' :: body := by
        rw [List.dropWhile_append_of_pos htag, List.dropWhile_cons_of_neg (by decide)]
      have hsingle : ∀ c ∈ '$' :: tag ++ ['$'], c.utf8Size = 1 := by
        intro c hc
        simp only [List.cons_append, List.mem_cons, List.mem_append, List.not_mem_nil,
          or_false] at hc
        rcases hc with rfl | hc | rfl
        · rfl
        · exact utf8Size_of_isWordChar (htag c hc)
        · rfl
      rw [hdrop] at hrun
      have hbody := hrun.next rfl
      have hopening : '$' :: (tag ++ '$' :: body) = ('$' :: tag ++ ['$']) ++ body := by simp
      have hend : k + 1 = bytes ('$' :: tag ++ ['$']) :=
        hbody.unique (hopening ▸ RestAt.behind ('$' :: tag ++ ['$']) body)
      have htake : (utf8 ('$' :: (tag ++ '$' :: body))).take (k + 1) =
          ('$' :: tag ++ ['$']).map Char.toUInt8 := by
        rw [hopening, utf8_append, hend, ← length_utf8, List.take_left, utf8_eq_map hsingle]
      rw [hdrop, if_pos (by rfl), htake]
      refine RestAt.eq_of_drop ?_
      rw [Nat.add_assoc, List.drop_length_add_append, Nat.add_comm 1, List.drop_succ_cons]
      exact findEnd_utf8 hsingle hbody
  | none =>
      rw [if_neg]
      · rfl
      intro hdollar
      obtain ⟨body, hbody⟩ := List.head?_eq_some_iff.1 hdollar
      simp [dollarTail?, drop_takeWhile_length, hbody] at htail

theorem byteSlice?_utf8 {s : Text} (h : RestAt t i (s ++ u)) :
    byteSlice? (utf8 t) i (i + s.bytes) = some (utf8 s) := by
  obtain ⟨front, rfl, rfl⟩ := h
  rw [byteSlice?, if_pos (by simp), ← List.append_assoc, utf8_append, ← bytes_append,
    ← length_utf8 (front ++ s), List.take_left, utf8_append, ← length_utf8, List.drop_left]

theorem namedPlaceholderTail?_append {name : Text} (hname : ')' ∉ name) (rest : Text) :
    namedPlaceholderTail? ('(' :: (name ++ ')' :: rest)) =
      if name.isEmpty || !name.all isWordChar then none
      else if rest.head?.any Char.isAlpha then some (name.length + 3)
      else none := by
  by_cases hword : name.all isWordChar = true
  · have hall := List.all_eq_true.1 hword
    have htake : (name ++ ')' :: rest).takeWhile isWordChar = name := by
      rw [List.takeWhile_append_of_pos hall, List.takeWhile_cons_of_neg (by decide),
        List.append_nil]
    have hempty : (name.isEmpty || !name.all isWordChar) = name.isEmpty := by simp [hword]
    rw [hempty, namedPlaceholderTail?, htake, List.drop_left]
    cases rest with
    | nil => simp
    | cons d rest => cases name <;> rfl
  · rw [if_pos (by simp [hword]), Option.eq_none_iff_forall_ne_some]
    intro n hn
    obtain ⟨word, d, tail, -, hall, -, hsplit, -⟩ := namedPlaceholderTail?_eq_some hn
    rcases List.append_eq_append_iff.1 (List.cons.inj hsplit).2 with ⟨u, rfl, hu⟩ | ⟨u, rfl, hu⟩
    · cases u with
      | nil => exact hword (by simpa using hall)
      | cons e u =>
          obtain ⟨rfl, -⟩ := List.cons.inj hu
          exact absurd (hall ')' (by simp)) (by decide)
    · cases u with
      | nil => exact hword (by simpa using hall)
      | cons e u =>
          obtain ⟨rfl, -⟩ := List.cons.inj hu
          exact hname (by simp)

theorem placeholderEnd?_utf8 (r : Text) :
    placeholderEnd? (utf8 ('%' :: '(' :: r)) =
      some (((namedPlaceholderTail? ('(' :: r)).map fun n =>
        bytes ('%' :: ('(' :: r).take n)).getD 0) := by
  have hstart := RestAt.start ('%' :: '(' :: r)
  have hname : RestAt ('%' :: '(' :: r) 2 r := (hstart.next rfl).next rfl
  by_cases hr : ')' ∈ r
  · obtain ⟨name, rest, rfl, hclose⟩ : ∃ name rest : Text, r = name ++ ')' :: rest ∧ ')' ∉ name :=
      List.eq_append_cons_of_mem hr
    have hbehind : RestAt ('%' :: '(' :: (name ++ ')' :: rest)) (2 + name.bytes + 1) rest :=
      hname.append.next rfl
    have hfind : find? [')'.toUInt8] (utf8 ('%' :: '(' :: (name ++ ')' :: rest))) 0 =
        some (2 + name.bytes) := by
      rw [find?_eq_some (s := '%' :: '(' :: name) rfl (by simpa using hclose) hstart]
      show some (0 + (1 + (1 + name.bytes))) = _
      rw [Nat.zero_add, ← Nat.add_assoc]
    rw [placeholderEnd?, hfind]
    dsimp only
    rw [byteSlice?_utf8 hname, Option.bind_eq_bind, Option.bind_some, isEmpty_utf8,
      all_utf8 (agrees_of_word fun _ h => h),
      hbehind.any_getElem?_utf8 (agrees_of_word fun _ => isWordChar_of_isAlpha),
      namedPlaceholderTail?_append hclose]
    split
    · rfl
    · split
      next hletter =>
        cases rest with
        | nil => cases hletter
        | cons d rest =>
            have hd := utf8Size_of_isWordChar (isWordChar_of_isAlpha hletter)
            have hdrop : ('(' :: (name ++ ')' :: d :: rest)).drop (name.length + 3) = rest := by
              rw [List.drop_succ_cons, List.drop_length_add_append]
              rfl
            exact congrArg some (RestAt.eq_of_drop (hdrop.symm ▸ hbehind.next hd))
      · rfl
  · have hfind : find? [')'.toUInt8] (utf8 ('%' :: '(' :: r)) 0 = none :=
      find?_eq_none rfl (by simpa using hr) hstart
    have hnone : namedPlaceholderTail? ('(' :: r) = none := by
      rw [Option.eq_none_iff_forall_ne_some]
      intro n hn
      obtain ⟨name, d, tail, -, -, -, hsplit, -⟩ := namedPlaceholderTail?_eq_some hn
      obtain ⟨-, rfl⟩ := List.cons.inj hsplit
      exact hr (by simp)
    rw [placeholderEnd?, hfind, hnone]
    rfl

theorem operatorEnd_utf8 (c : Char) (r : Text) (hc : c.utf8Size = 1) :
    operatorEnd (utf8 (c :: r)) = bytes (c :: r.take (operatorTail c r)) := by
  have hall : (longOperators.all fun op => !op.isEmpty && op.all (·.utf8Size == 1)) = true := by
    decide
  have hsingle : ∀ op ∈ longOperators, op ≠ [] ∧ ∀ c ∈ op, c.utf8Size = 1 := by
    simpa using hall
  have hfind : (longOperators.find? fun op => (utf8 op).isPrefixOf (utf8 (c :: r))) =
      longOperators.find? (startsWith (c :: r)) := by
    refine List.find?_congr fun op hop => ?_
    rw [utf8_eq_map (hsingle op hop).2, isPrefixOf_utf8 (hsingle op hop).2]
  rw [operatorEnd, operatorTail, hfind]
  cases hop : longOperators.find? (startsWith (c :: r)) with
  | none => simp [hc]
  | some op =>
      obtain ⟨hne, -⟩ := hsingle op (List.mem_of_find?_eq_some hop)
      obtain ⟨d, op, rfl⟩ := List.exists_cons_of_ne_nil hne
      have hstart : startsWith (c :: r) (d :: op) = true := List.find?_some hop
      obtain ⟨rest, hrest⟩ := List.isPrefixOf_iff_prefix.1 hstart
      obtain ⟨rfl, rfl⟩ := List.cons.inj hrest
      simp

theorem identifierEnd_eq (t : Text) : identifierEnd t = bytes (t.take (identifierTail t)) := by
  rw [identifierEnd, identifierTail, ← List.prefix_iff_eq_take.1 (List.takeWhile_prefix _)]

end Lexer

end EmbeddedSql
