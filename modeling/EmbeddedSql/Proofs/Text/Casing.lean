import EmbeddedSql.Layout.Writer
import EmbeddedSql.Token.Lexer

namespace EmbeddedSql.Text

open Lexer

theorem forall_char {P : Char → Prop} (hascii : ∀ n < 128, P (Char.ofNat n))
    (hother : ∀ c, isAscii c = false → P c) (c : Char) : P c := by
  by_cases hc : isAscii c = true
  · have hlt : c.toNat < 128 := by simpa [isAscii] using hc
    rw [← Char.ofNat_toNat c]
    exact hascii _ hlt
  · exact hother c (Bool.eq_false_iff.2 hc)

theorem not_le_of_not_isAscii {c : Char} (hc : isAscii c = false) {d : Char}
    (hd : d.toNat < 128) : ¬c.val ≤ d.val := by
  have hlarge : ¬c.toNat < 128 := by simpa [isAscii] using hc
  exact fun h => hlarge (Nat.lt_of_le_of_lt (show c.toNat ≤ d.toNat from h) hd)

theorem toUpper_of_not_isAscii {c : Char} (hc : isAscii c = false) : c.toUpper = c :=
  dif_neg fun h => not_le_of_not_isAscii hc (d := 'z') (by decide) h.2

theorem toLower_of_not_isAscii {c : Char} (hc : isAscii c = false) : c.toLower = c :=
  dif_neg fun h => not_le_of_not_isAscii hc (d := 'Z') (by decide) h.2

structure SameButCase (d c : Char) : Prop where
  upper : d.toUpper = c.toUpper
  lower : d.toLower = c.toLower
  letter : isLetter d = isLetter c
  name : isIdentifierChar d = isIdentifierChar c
  blank : isAsciiBlank d = isAsciiBlank c
  other : isLetter c = false → d = c

instance (d c : Char) : Decidable (SameButCase d c) :=
  decidable_of_iff (d.toUpper = c.toUpper ∧ d.toLower = c.toLower ∧
      isLetter d = isLetter c ∧ isIdentifierChar d = isIdentifierChar c ∧
      isAsciiBlank d = isAsciiBlank c ∧ (isLetter c = false → d = c))
    ⟨fun ⟨upper, lower, letter, name, blank, other⟩ => ⟨upper, lower, letter, name, blank, other⟩,
      fun h => ⟨h.upper, h.lower, h.letter, h.name, h.blank, h.other⟩⟩

theorem SameButCase.refl (c : Char) : SameButCase c c :=
  ⟨rfl, rfl, rfl, rfl, rfl, fun _ => rfl⟩

theorem sameButCase_ascii : ∀ n < 128,
    SameButCase (Char.ofNat n).toUpper (Char.ofNat n) ∧
      SameButCase (Char.ofNat n).toLower (Char.ofNat n) := by
  decide +kernel

theorem sameButCase_upper (c : Char) : SameButCase c.toUpper c := by
  refine forall_char (P := fun c => SameButCase c.toUpper c)
    (fun n hn => (sameButCase_ascii n hn).1) (fun c hc => ?_) c
  rw [toUpper_of_not_isAscii hc]
  exact .refl c

theorem sameButCase_lower (c : Char) : SameButCase c.toLower c := by
  refine forall_char (P := fun c => SameButCase c.toLower c)
    (fun n hn => (sameButCase_ascii n hn).2) (fun c hc => ?_) c
  rw [toLower_of_not_isAscii hc]
  exact .refl c

theorem toUpper_toUpper (c : Char) : c.toUpper.toUpper = c.toUpper :=
  (sameButCase_upper c).upper

theorem toUpper_toLower (c : Char) : c.toLower.toUpper = c.toUpper :=
  (sameButCase_lower c).upper

theorem toLower_toUpper (c : Char) : c.toUpper.toLower = c.toLower :=
  (sameButCase_upper c).lower

theorem toLower_toLower (c : Char) : c.toLower.toLower = c.toLower :=
  (sameButCase_lower c).lower

end EmbeddedSql.Text

namespace EmbeddedSql.KeywordCase

open Text Lexer

def char : KeywordCase → Char → Char
  | .upper => Char.toUpper
  | .lower => Char.toLower
  | .preserve => id

section

variable (case : KeywordCase) (c : Char)

theorem char_of_not_isAscii {c : Char} (hc : isAscii c = false) : case.char c = c := by
  cases case with
  | upper => exact toUpper_of_not_isAscii hc
  | lower => exact toLower_of_not_isAscii hc
  | preserve => rfl

theorem forall_cased {P : Char → Char → Prop}
    (hascii : ∀ n < 128, P (Char.ofNat n).toUpper (Char.ofNat n) ∧
      P (Char.ofNat n).toLower (Char.ofNat n))
    (hsame : ∀ c, P c c) : P (case.char c) c := by
  refine forall_char (P := fun c => P (case.char c) c) (fun n hn => ?_) (fun c hc => ?_) c
  · cases case with
    | upper => exact (hascii n hn).1
    | lower => exact (hascii n hn).2
    | preserve => exact hsame _
  · rw [char_of_not_isAscii case hc]
    exact hsame c

theorem sameButCase_char : SameButCase (case.char c) c := by
  cases case with
  | upper => exact sameButCase_upper c
  | lower => exact sameButCase_lower c
  | preserve => exact .refl c

@[simp] theorem toUpper_char : (case.char c).toUpper = c.toUpper :=
  (sameButCase_char case c).upper

@[simp] theorem toLower_char : (case.char c).toLower = c.toLower :=
  (sameButCase_char case c).lower

@[simp] theorem char_char : case.char (case.char c) = case.char c := by
  cases case with
  | upper => exact toUpper_toUpper c
  | lower => exact toLower_toLower c
  | preserve => rfl

@[simp] theorem isLetter_char : isLetter (case.char c) = isLetter c :=
  (sameButCase_char case c).letter

@[simp] theorem isIdentifierChar_char : isIdentifierChar (case.char c) = isIdentifierChar c :=
  (sameButCase_char case c).name

@[simp] theorem isAsciiBlank_char : isAsciiBlank (case.char c) = isAsciiBlank c :=
  (sameButCase_char case c).blank

theorem char_eq_iff {m : Char} (hm : m ∈ ['_', '.', '-', '>', '*', '\n']) :
    case.char c = m ↔ c = m := by
  have hmarks : (['_', '.', '-', '>', '*', '\n'].all fun m => !isLetter m) = true := by decide
  have hother : isLetter m = false := by simpa using List.all_eq_true.1 hmarks m hm
  constructor
  · rintro rfl
    rw [isLetter_char] at hother
    exact ((sameButCase_char case c).other hother).symm
  · rintro rfl
    exact (sameButCase_char case c).other hother

end

def text (case : KeywordCase) (t : Text) : Text := t.map case.char

variable (case : KeywordCase) (t : Text)

@[simp] theorem upper_text : Text.upper (case.text t) = Text.upper t := by
  simp [Text.upper, text, Function.comp_def]

@[simp] theorem text_text : case.text (case.text t) = case.text t := by
  simp [text, Function.comp_def]

@[simp] theorem length_text : (case.text t).length = t.length := by simp [text]

theorem reserves_text (v : Vocabulary) : v.reserves (case.text t) = v.reserves t := by
  simp [Vocabulary.reserves]

theorem contains_text {m : Char} (hm : m ∈ ['_', '.', '-', '>', '*', '\n']) :
    List.contains (case.text t) m = List.contains t m := by
  rw [Bool.eq_iff_iff]
  simp only [List.contains_iff_mem, text, List.mem_map, char_eq_iff case _ hm, exists_eq_right]

theorem identifierTail_text (rest : Text) :
    identifierTail (case.text t ++ rest) = identifierTail (t ++ rest) := by
  induction t with
  | nil => rfl
  | cons c t ih =>
      simp only [identifierTail, text, List.map_cons, List.cons_append, List.takeWhile_cons,
        isIdentifierChar_char] at ih ⊢
      split
      · simp only [List.length_cons, ih]
      · rfl

end EmbeddedSql.KeywordCase

namespace EmbeddedSql.Layout

theorem casedText_keyword (case : KeywordCase) {t : Token} (ht : t.kind = .keyword) :
    casedText case t = case.text t.text := by
  cases case <;> simp [casedText, ht, KeywordCase.text, KeywordCase.char, Text.upper, Text.lower]

theorem casedText_other (case : KeywordCase) {t : Token} (ht : t.kind ≠ .keyword) :
    casedText case t = t.text := by
  unfold casedText
  split <;> simp_all

theorem head?_casedText (case : KeywordCase) (t : Token) {m : Char}
    (hm : m ∈ ['_', '.', '-', '>', '*', '\n']) :
    (casedText case t).head? = some m ↔ t.text.head? = some m := by
  by_cases ht : t.kind = .keyword
  · rw [casedText_keyword case ht, KeywordCase.text, List.head?_map]
    cases t.text.head? <;> simp [case.char_eq_iff _ hm]
  · rw [casedText_other case ht]

end EmbeddedSql.Layout
