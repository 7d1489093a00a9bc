namespace EmbeddedSql

/-- Text is the sequence of its characters. Widths count characters; offsets count bytes of the
UTF-8 form, which is what `Text.bytes` measures. -/
abbrev Text := List Char

namespace Text

def bytes : Text → Nat
  | [] => 0
  | c :: r => c.utf8Size + bytes r

@[simp] theorem bytes_nil : bytes [] = 0 := rfl

@[simp] theorem bytes_cons (c : Char) (t : Text) : bytes (c :: t) = c.utf8Size + bytes t := rfl

@[simp] theorem bytes_append (s t : Text) : bytes (s ++ t) = bytes s + bytes t := by
  induction s with
  | nil => simp
  | cons c r ih => simp [ih, Nat.add_assoc]

def splitAtByte? : Nat → Text → Option (Text × Text)
  | 0, t => some ([], t)
  | _ + 1, [] => none
  | n + 1, c :: r =>
      if c.utf8Size ≤ n + 1 then
        (splitAtByte? (n + 1 - c.utf8Size) r).map fun (s, u) => (c :: s, u)
      else none

theorem splitAtByte?_eq_some {n : Nat} {t s u : Text} (h : splitAtByte? n t = some (s, u)) :
    s ++ u = t ∧ bytes s = n := by
  induction t generalizing n s with
  | nil => cases n <;> simp_all [splitAtByte?]
  | cons c r ih =>
      cases n with
      | zero => simp_all [splitAtByte?]
      | succ n =>
          simp only [splitAtByte?] at h
          split at h
          · obtain ⟨⟨s', u'⟩, hs, he⟩ := Option.map_eq_some_iff.1 h
            obtain ⟨rfl, rfl⟩ := Prod.mk.inj he
            obtain ⟨h₁, h₂⟩ := ih hs
            simp [h₁, h₂]; omega
          · simp at h

theorem splitAtByte?_append (s t : Text) : splitAtByte? s.bytes (s ++ t) = some (s, t) := by
  induction s with
  | nil => simp [splitAtByte?]
  | cons c s ih =>
      have hpos := c.utf8Size_pos
      obtain ⟨n, hn⟩ : ∃ n, bytes (c :: s) = n + 1 := ⟨bytes (c :: s) - 1, by simp; omega⟩
      have hle : c.utf8Size ≤ n + 1 := by
        rw [← hn, bytes_cons]
        omega
      have hrest : n + 1 - c.utf8Size = bytes s := by
        rw [← hn, bytes_cons]
        omega
      rw [hn, List.cons_append, splitAtByte?, if_pos hle, hrest, ih]
      rfl

abbrev backslash : Char := '\x5c'

abbrev singleQuote : Char := '\x27'

abbrev doubleQuote : Char := '\x22'

abbrev backtick : Char := '\x60'

abbrev openBrace : Char := '\x7b'

abbrev closeBrace : Char := '\x7d'

def spaces (n : Nat) : Text := List.replicate n ' '

def isAscii (c : Char) : Bool := c.toNat < 128

theorem isAlpha_iff_toNat {c : Char} : c.isAlpha = true ↔
    (65 ≤ c.toNat ∧ c.toNat ≤ 90) ∨ (97 ≤ c.toNat ∧ c.toNat ≤ 122) := by
  have hletter : c.isAlpha = (decide ('A'.val ≤ c.val ∧ c.val ≤ 'Z'.val) ||
      (decide ('a'.val ≤ c.val) && decide (c.val ≤ 'z'.val))) := rfl
  rw [hletter, Bool.or_eq_true, Bool.and_eq_true, decide_eq_true_eq, decide_eq_true_eq,
    decide_eq_true_eq]
  rfl

theorem isHexDigit_iff_toNat {c : Char} : c.isHexDigit = true ↔
    c.isDigit = true ∨ (97 ≤ c.toNat ∧ c.toNat ≤ 102) ∨ (65 ≤ c.toNat ∧ c.toNat ≤ 70) := by
  have hdigit : c.isHexDigit = (c.isDigit ||
      decide ('a'.val ≤ c.val) && decide (c.val ≤ 'f'.val) ||
      decide ('A'.val ≤ c.val) && decide (c.val ≤ 'F'.val)) := rfl
  rw [hdigit, Bool.or_eq_true, Bool.or_eq_true, Bool.and_eq_true, Bool.and_eq_true,
    decide_eq_true_eq, decide_eq_true_eq, decide_eq_true_eq, decide_eq_true_eq, or_assoc]
  rfl

def upper (t : Text) : Text := t.map Char.toUpper

def lower (t : Text) : Text := t.map Char.toLower

def equalsIgnoringCase (s t : Text) : Bool := lower s == lower t

def startsWith (t s : Text) : Bool := s.isPrefixOf t

def occursIn (s : Text) : Text → Bool
  | [] => s.isEmpty
  | c :: r => startsWith (c :: r) s || occursIn s r

def trimEndWhile (p : Char → Bool) (t : Text) : Text := (t.reverse.dropWhile p).reverse

def isAsciiBlank (c : Char) : Bool :=
  c == ' ' || c == '\t' || c == '\n' || c == '\x0c' || c == '\r'

def isBlank (c : Char) : Bool :=
  let n := c.toNat
  (9 ≤ n && n ≤ 13) || n == 0x20 || n == 0x85 || n == 0xA0 || n == 0x1680 ||
    (0x2000 ≤ n && n ≤ 0x200A) || n == 0x2028 || n == 0x2029 || n == 0x202F || n == 0x205F ||
    n == 0x3000

theorem isBlank_of_isAsciiBlank {c : Char} (h : isAsciiBlank c = true) : isBlank c = true := by
  simp only [isAsciiBlank, Bool.or_eq_true, beq_iff_eq] at h
  rcases h with (((rfl | rfl) | rfl) | rfl) | rfl <;> rfl

def trimStart (t : Text) : Text := t.dropWhile isBlank

def trimEnd (t : Text) : Text := trimEndWhile isBlank t

def isAllBlank (t : Text) : Bool := t.all isBlank

end Text

end EmbeddedSql
