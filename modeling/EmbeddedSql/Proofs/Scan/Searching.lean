import EmbeddedSql.Proofs.Scan.Leaping
import EmbeddedSql.Proofs.Text.Encoding
import EmbeddedSql.Token.Lexer

namespace EmbeddedSql

open Text

theorem Lexer.blockCommentTail_eq (u : Text) :
    blockCommentTail u = delimitedTail ['*', '/'] u := by
  have hstart (c d : Char) (r : Text) :
      startsWith (c :: d :: r) ['*', '/'] = (c == '*' && d == '/') := by
    rw [BEq.comm (a := c), BEq.comm (a := d)]
    simp [startsWith, List.isPrefixOf]
  fun_induction blockCommentTail u with
  | case1 => rfl
  | case2 c => rw [delimitedTail, if_neg (by simp [startsWith, List.isPrefixOf])]; rfl
  | case3 c d r h => rw [delimitedTail, if_pos (by rwa [hstart])]; rfl
  | case4 c d r h ih => rw [delimitedTail, if_neg (by rwa [hstart]), ih]

namespace Scan

def find? (pattern bs : List UInt8) (i : Nat) : Option Nat :=
  if i < bs.length then
    if pattern.isPrefixOf (bs.drop i) then some i else find? pattern bs (i + 1)
  else none
termination_by bs.length - i

def findEnd (pattern bs : List UInt8) (i : Nat) : Nat :=
  match find? pattern bs i with
  | some p => p + pattern.length
  | none => bs.length

def runEnd (q : Char → Bool) (bs : List UInt8) (i : Nat) : Nat :=
  i + ((bs.drop i).takeWhile fun b => q (Char.ofUInt8 b)).length

/-- Behind the brace that closes all that stand open, `depth` of them at position `i`. There is no
answer where more are closed than opened. -/
def bracedEnd? (bs : List UInt8) (depth i : Nat) : Option Nat :=
  if i < bs.length then
    if bs[i]? = some openBrace.toUInt8 then bracedEnd? bs (depth + 1) (i + 1)
    else if bs[i]? = some closeBrace.toUInt8 then
      if depth = 0 then none
      else if depth = 1 then some (i + 1)
      else bracedEnd? bs (depth - 1) (i + 1)
    else bracedEnd? bs depth (i + 1)
  else some bs.length
termination_by bs.length - i

theorem length_map_toUInt8 {s : Text} (hs : ∀ c ∈ s, c.utf8Size = 1) :
    (s.map Char.toUInt8).length = s.bytes := by
  induction s with
  | nil => rfl
  | cons c s ih =>
      obtain ⟨hc, hs⟩ := List.forall_mem_cons.1 hs
      rw [List.map_cons, List.length_cons, ih hs, bytes_cons, hc, Nat.add_comm]

theorem lt_length_of_drop {bs rest : List UInt8} {b : UInt8} {i : Nat} (h : bs.drop i = b :: rest) :
    i < bs.length := by
  have hlength := congrArg List.length h
  rw [List.length_drop, List.length_cons] at hlength
  omega

theorem find?_of_length_le {pattern bs : List UInt8} {i : Nat} (h : bs.length ≤ i) :
    find? pattern bs i = none := by
  rw [find?, if_neg (Nat.not_lt.2 h)]

variable {t u r s : Text} {i : Nat}

section

variable {w : Char} {p : Text}

theorem find?_idle {bs rest : List UInt8} {b : UInt8} (h : bs.drop i = b :: rest)
    (hb : b ∉ [w].map Char.toUInt8) :
    find? ((w :: p).map Char.toUInt8) bs i = find? ((w :: p).map Char.toUInt8) bs (i + 1) := by
  have hlt := lt_length_of_drop h
  have hhead : (w.toUInt8 == b) = false := by
    rw [beq_eq_false_iff_ne]
    exact fun hw => hb (by simp [hw])
  rw [find?, if_pos hlt, if_neg (by simp [h, List.isPrefixOf, hhead])]

variable (hp : ∀ c ∈ w :: p, c.utf8Size = 1)

include hp

theorem find?_behind {c : Char} (h : RestAt t i (c :: r))
    (hc : startsWith (c :: r) (w :: p) = false) :
    find? ((w :: p).map Char.toUInt8) (utf8 t) i =
      find? ((w :: p).map Char.toUInt8) (utf8 t) (i + c.utf8Size) := by
  rw [find?, if_pos h.lt_length, h.drop_utf8, isPrefixOf_utf8 hp, hc]
  have hidle : ∀ i b r, (utf8 t).drop i = b :: r → b ∉ [w].map Char.toUInt8 →
      find? ((w :: p).map Char.toUInt8) (utf8 t) i =
        find? ((w :: p).map Char.toUInt8) (utf8 t) (i + 1) := fun i b r => find?_idle
  exact h.skip_behind_first [w] hidle (by simpa using hp w (by simp))

theorem findEnd_utf8 (h : RestAt t i u) :
    RestAt t (findEnd ((w :: p).map Char.toUInt8) (utf8 t) i)
      (u.drop (Lexer.delimitedTail (w :: p) u)) := by
  induction u generalizing i with
  | nil =>
      rw [findEnd, find?_of_length_le (Nat.le_of_eq h.eq_length.symm), ← h.eq_length]
      exact h
  | cons c r ih =>
      cases hc : startsWith (c :: r) (w :: p) with
      | true =>
          obtain ⟨rest, hrest⟩ := List.isPrefixOf_iff_prefix.1 hc
          rw [findEnd, find?, if_pos h.lt_length, h.drop_utf8, isPrefixOf_utf8 hp, if_pos hc,
            Lexer.delimitedTail, if_pos hc, length_map_toUInt8 hp, ← hrest, List.drop_left]
          exact RestAt.append (hrest ▸ h)
      | false =>
          rw [findEnd, find?_behind hp h hc, ← findEnd, Lexer.delimitedTail, hc,
            if_neg (by simp), Nat.add_comm 1, List.drop_succ_cons]
          exact ih h.cons

end

section

variable {w : Char} (hw : w.utf8Size = 1) (hs : w ∉ s)

include hw hs

theorem find?_append (h : RestAt t i (s ++ u)) :
    find? [w.toUInt8] (utf8 t) i = find? [w.toUInt8] (utf8 t) (i + s.bytes) := by
  induction s generalizing i with
  | nil => rfl
  | cons c s ih =>
      obtain ⟨hc, hs⟩ := not_or.1 (mt List.mem_cons.2 hs)
      have hstart : startsWith (c :: (s ++ u)) [w] = false := by
        simpa [startsWith, List.isPrefixOf] using hc
      rw [bytes_cons, ← Nat.add_assoc, ← ih hs (RestAt.cons h)]
      exact find?_behind (p := []) (by simpa using hw) h hstart

theorem find?_eq_some (h : RestAt t i (s ++ w :: u)) :
    find? [w.toUInt8] (utf8 t) i = some (i + s.bytes) := by
  have hw' : RestAt t (i + s.bytes) (w :: u) := h.append
  rw [find?_append hw hs h, find?, if_pos hw'.lt_length, hw'.drop_utf8, utf8_cons,
    utf8EncodeChar_eq hw, if_pos (by simp [List.isPrefixOf])]

theorem find?_eq_none (h : RestAt t i s) : find? [w.toUInt8] (utf8 t) i = none := by
  rw [← List.append_nil s] at h
  rw [find?_append hw hs h]
  exact find?_of_length_le (Nat.le_of_eq h.append.eq_length.symm)

end

theorem agrees_of_single {q : Char → Bool} (hq : ∀ c, q c = true → c.utf8Size = 1) :
    Agrees (fun b => q (Char.ofUInt8 b)) q :=
  agrees_ofUInt8 fun c hc => Bool.eq_false_iff.2 (mt (hq c) hc)

theorem runEnd_utf8 {q : Char → Bool} (hq : Agrees (fun b => q (Char.ofUInt8 b)) q)
    (h : RestAt t i u) : RestAt t (runEnd q (utf8 t) i) (u.dropWhile q) := by
  rw [runEnd, h.drop_utf8, takeWhile_utf8 hq, length_utf8]
  exact RestAt.append (by rwa [List.takeWhile_append_dropWhile])

theorem bracedEnd?_other {bs rest : List UInt8} {depth : Nat} {b : UInt8}
    (h : bs.drop i = b :: rest) (hb : b ∉ [openBrace, closeBrace].map Char.toUInt8) :
    bracedEnd? bs depth i = bracedEnd? bs depth (i + 1) := by
  have hlt := lt_length_of_drop h
  have hbyte : bs[i]? = some b := by rw [← List.head?_drop, h, List.head?_cons]
  have hother : b ≠ openBrace.toUInt8 ∧ b ≠ closeBrace.toUInt8 := by simpa using hb
  rw [bracedEnd?, if_pos hlt, hbyte, if_neg (by simpa using hother.1),
    if_neg (by simpa using hother.2)]

theorem bracedEnd?_utf8 {depth : Nat} (hdepth : depth ≠ 0) (h : RestAt t i u) :
    bracedEnd? (utf8 t) depth i = some (i + bytes (u.take (Lexer.bracedTail depth u))) := by
  induction u generalizing depth i with
  | nil =>
      rw [bracedEnd?, if_neg (Nat.not_lt.2 (Nat.le_of_eq h.eq_length.symm)), ← h.eq_length]
      rfl
  | cons c r ih =>
      have hopen : (utf8 t)[i]? = some openBrace.toUInt8 ↔ c = openBrace := by
        rw [h.byteAt_iff rfl, List.head?_cons, Option.some_inj]
      have hclose : (utf8 t)[i]? = some closeBrace.toUInt8 ↔ c = closeBrace := by
        rw [h.byteAt_iff rfl, List.head?_cons, Option.some_inj]
      by_cases hc : c = openBrace
      · subst hc
        rw [bracedEnd?, if_pos h.lt_length, if_pos (hopen.2 rfl), Lexer.bracedTail,
          if_pos (beq_self_eq_true _), add_bytes_take_cons]
        exact ih (Nat.succ_ne_zero depth) h.cons
      · by_cases hc' : c = closeBrace
        · subst hc'
          rw [bracedEnd?, if_pos h.lt_length, if_neg (mt hopen.1 hc), if_pos (hclose.2 rfl),
            if_neg hdepth, Lexer.bracedTail, if_neg (show ¬(closeBrace == openBrace) by decide),
            if_pos (beq_self_eq_true _)]
          by_cases hone : depth = 1
          · rw [if_pos hone, if_pos (Nat.le_of_eq hone)]
            rfl
          · rw [if_neg hone, if_neg (by omega), add_bytes_take_cons]
            exact ih (by omega) h.cons
        · have hskip : bracedEnd? (utf8 t) depth i = bracedEnd? (utf8 t) depth (i + c.utf8Size) :=
            h.skip [openBrace, closeBrace] (fun i b r => bracedEnd?_other)
              (forall_utf8Size rfl) (by simp [hc, hc'])
          rw [hskip, Lexer.bracedTail, if_neg (by simpa using hc), if_neg (by simpa using hc'),
            add_bytes_take_cons]
          exact ih hdepth h.cons

theorem bracedEnd?_opening (h : RestAt t i (openBrace :: r)) :
    bracedEnd? (utf8 t) 0 i = some (i + bytes (openBrace :: r.take (Lexer.bracedTail 1 r))) := by
  rw [bracedEnd?, if_pos h.lt_length, if_pos ((h.byteAt_iff rfl).2 rfl),
    bracedEnd?_utf8 (Nat.succ_ne_zero 0) (h.next rfl), bytes_cons, ← Nat.add_assoc]
  rfl

end Scan

end EmbeddedSql
