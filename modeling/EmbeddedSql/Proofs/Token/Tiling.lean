import Mathlib.Data.List.Chain
import EmbeddedSql.Proofs.Scan.Lexemes
import EmbeddedSql.Proofs.Text.Boundary
import EmbeddedSql.Proofs.Token.Shielding
import EmbeddedSql.Proofs.Token.Stream

namespace EmbeddedSql.Lexer

open Text

inductive BlankRun : Text → Prop
  | nil : BlankRun []
  | blank {c : Char} {r : Text} : isAsciiBlank c = true → BlankRun r → BlankRun (c :: r)
  | escape {c : Char} {r : Text} : isBlankEscape c = true → BlankRun r →
      BlankRun (backslash :: c :: r)

theorem blankRun_take_blankTail (t : Text) : BlankRun (t.take (blankTail t)) := by
  fun_induction blankTail t with
  | case1 => exact .nil
  | case2 c hc => exact .blank hc .nil
  | case3 c hc => exact .nil
  | case4 c d r hc ih =>
      rw [Nat.add_comm, List.take_succ_cons]
      exact .blank hc ih
  | case5 c d r hc hescape ih =>
      obtain ⟨hslash, hd⟩ := Bool.and_eq_true_iff.1 hescape
      obtain rfl : c = backslash := by simpa using hslash
      rw [Nat.add_comm, List.take_succ_cons, List.take_succ_cons]
      exact .escape hd ih
  | case6 c d r hc hescape => exact .nil

theorem blankTail_drop_blankTail (t : Text) : blankTail (t.drop (blankTail t)) = 0 := by
  fun_induction blankTail t with
  | case1 => rfl
  | case2 c hc => rfl
  | case3 c hc => simp [blankTail, hc]
  | case4 c d r hc ih => rwa [Nat.add_comm, List.drop_succ_cons]
  | case5 c d r hc hescape ih => rwa [Nat.add_comm, List.drop_succ_cons, List.drop_succ_cons]
  | case6 c d r hc hescape => simp [blankTail, hc, hescape]

section

variable {c : Char} {r : Text} (h : (lexeme c r).1 = .blank)

include h

theorem lexeme_blank_cases : (isAsciiBlank c = true ∧ (lexeme c r).2 = blankTail r) ∨
    ∃ d s, c = backslash ∧ r = d :: s ∧ isBlankEscape d = true ∧
      (lexeme c r).2 = 1 + blankTail s := by
  have hpair : lexeme c r = (.blank, (lexeme c r).2) := Prod.ext h rfl
  exact lexeme_blank hpair

theorem blankRun_of_lexeme : BlankRun (c :: r.take (lexeme c r).2) := by
  rcases lexeme_blank_cases h with ⟨hc, hn⟩ | ⟨d, s, rfl, rfl, hd, hn⟩
  · rw [hn]
    exact .blank hc (blankRun_take_blankTail r)
  · rw [hn, Nat.add_comm, List.take_succ_cons]
    exact .escape hd (blankRun_take_blankTail s)

theorem blankTail_ne_zero_of_lexeme : blankTail (c :: r) ≠ 0 := by
  rcases lexeme_blank_cases h with ⟨hc, -⟩ | ⟨d, s, rfl, rfl, hd, -⟩
  · cases r <;> simp [blankTail, hc]
  · rw [blankTail, if_neg (by decide), if_pos (by simp [hd])]
    omega

theorem blankTail_after_lexeme : blankTail (r.drop (lexeme c r).2) = 0 := by
  rcases lexeme_blank_cases h with ⟨-, hn⟩ | ⟨d, s, rfl, rfl, -, hn⟩
  · rw [hn]
    exact blankTail_drop_blankTail r
  · rw [hn, Nat.add_comm, List.drop_succ_cons]
    exact blankTail_drop_blankTail s

end

theorem token_kind_eq_blank {v : Vocabulary} {k : TokenKind} {s : Text} {n : Nat} :
    (token v k s n).kind = .blank ↔ k = .blank := by
  unfold token
  split
  · simp
  · split <;> simp
  · simp

structure Shows (x : Token) (slice : Text) : Prop where
  nonempty : slice ≠ []
  text : x.kind ≠ .blank → x.text = slice
  blank : x.kind = .blank → x.text = [' '] ∧ BlankRun slice

theorem shows_lexeme (v : Vocabulary) (c : Char) (r : Text) (n : Nat) :
    Shows (token v (lexeme c r).1 (c :: r.take (lexeme c r).2) n)
      (c :: r.take (lexeme c r).2) where
  nonempty := by simp
  text := fun hkind => token_text (fun hblank => hkind (token_kind_eq_blank.2 hblank)) _ n
  blank := by
    intro hkind
    have hblank := token_kind_eq_blank.1 hkind
    refine ⟨?_, blankRun_of_lexeme hblank⟩
    rw [hblank]
    rfl

def slices : Text → List Text
  | [] => []
  | c :: r => (c :: r.take (lexeme c r).2) :: slices (r.drop (lexeme c r).2)
termination_by t => t.length
decreasing_by simp only [List.length_drop, List.length_cons]; omega

theorem slices_flatten (t : Text) : (slices t).flatten = t := by
  fun_induction slices t with
  | case1 => rfl
  | case2 c r ih => rw [List.flatten_cons, ih, List.cons_append, List.take_append_drop]

theorem tokensFrom_shows (v : Vocabulary) (n : Nat) (t : Text) :
    List.Forall₂ Shows (tokensFrom v n t) (slices t) := by
  fun_induction slices t generalizing n with
  | case1 => rw [tokensFrom]; exact .nil
  | case2 c r ih => rw [tokensFrom_cons]; exact .cons (shows_lexeme v c r n) (ih _)

theorem tokensFrom_offsets (v : Vocabulary) (n : Nat) (t : Text) :
    (tokensFrom v n t).map Token.offset ++ [n + t.bytes] =
      (slices t).scanl (fun m s => m + s.bytes) n := by
  fun_induction slices t generalizing n with
  | case1 => rw [tokensFrom]; rfl
  | case2 c r ih =>
      have hbytes : n + bytes (c :: r) = n + bytes (c :: r.take (lexeme c r).2) +
          bytes (r.drop (lexeme c r).2) := by
        rw [Nat.add_assoc, ← bytes_append, List.cons_append, List.take_append_drop]
      have hoffset (k : TokenKind) (s : Text) : (token v k s n).offset = n := by
        rw [token_offset k s n n]
      rw [tokensFrom_cons, List.map_cons, List.cons_append, List.scanl_cons, hoffset, hbytes, ih]

theorem tokensFrom_isBoundary (v : Vocabulary) (s t : Text) :
    ∀ x ∈ tokensFrom v s.bytes t, IsBoundary (s ++ t) x.offset := by
  fun_induction slices t generalizing s with
  | case1 => simp [tokensFrom]
  | case2 c r ih =>
      intro x hx
      rw [tokensFrom_cons, ← bytes_append] at hx
      rcases List.mem_cons.1 hx with rfl | hx
      · rw [token_offset _ _ s.bytes]
        exact isBoundary_append s (c :: r)
      · have hrest := ih _ x hx
        rwa [List.append_assoc, List.cons_append, List.take_append_drop] at hrest

theorem tokensFrom_blanks_apart (v : Vocabulary) (n : Nat) (t : Text) :
    (tokensFrom v n t).IsChain fun x y => x.kind = .blank → y.kind ≠ .blank := by
  fun_induction slices t generalizing n with
  | case1 => rw [tokensFrom]; exact .nil
  | case2 c r ih =>
      rw [tokensFrom_cons]
      refine List.isChain_cons.2 ⟨?_, ih _⟩
      intro y hy hblank hblank'
      have hstop := blankTail_after_lexeme (token_kind_eq_blank.1 hblank)
      cases hrest : r.drop (lexeme c r).2 with
      | nil => simp [hrest, tokensFrom] at hy
      | cons d s =>
          rw [hrest, tokensFrom_cons] at hy
          obtain rfl := Option.some.inj hy
          rw [hrest] at hstop
          exact blankTail_ne_zero_of_lexeme (token_kind_eq_blank.1 hblank') hstop

theorem tokensAt?_eq (v : Vocabulary) {t u : Text} {n : Nat} (h : RestAt t n u) :
    tokensAt? v t n = some (tokensFrom v n u) := by
  fun_induction slices u generalizing n with
  | case1 =>
      have hend := h.add_bytes
      rw [bytes_nil, Nat.add_zero] at hend
      rw [tokensAt?, if_neg (by omega), tokensFrom]
  | case2 c r ih =>
      have hlt : n < t.bytes := by
        have hpos := c.utf8Size_pos
        rw [← h.add_bytes, bytes_cons]
        omega
      have hrest : RestAt t (n + bytes (c :: r.take (lexeme c r).2)) (r.drop (lexeme c r).2) :=
        h.drop ((lexeme c r).2 + 1)
      have hraw := RestAt.slice?_front (c :: r.take (lexeme c r).2) (r.drop (lexeme c r).2)
      rw [List.cons_append, List.take_append_drop] at hraw
      rw [tokensAt?, if_pos hlt, h.slice?_bytes, Option.bind_some, lexOne?_measures c r,
        Option.bind_some]
      dsimp only
      rw [cutLength_lexeme, hraw, Option.bind_some, ih hrest, tokensFrom_cons]
      rfl

theorem tokenize_tiles (v : Vocabulary) (t : Text) :
    tokensAt? v t 0 = some (v.tokenize t) ∧
    (∃ slices : List Text, slices.flatten = t ∧
      (v.tokenize t).map Token.offset ++ [(String.ofList t).utf8ByteSize] =
        slices.scanl (fun n s => n + s.bytes) 0 ∧
      List.Forall₂ Shows (v.tokenize t) slices) ∧
    (∀ x ∈ v.tokenize t, IsBoundary t x.offset) ∧
    ((v.tokenize t).IsChain fun x y => x.kind = .blank → y.kind ≠ .blank) ∧
    ∀ c r, ∃ kind n, lexOne? (c :: r) = some (kind, n) ∧ 0 < n ∧ n ≤ bytes (c :: r) ∧
      IsBoundary (c :: r) n ∧ cutLength (c :: r) n = n := by
  refine ⟨tokensAt?_eq v (RestAt.start t), ⟨slices t, slices_flatten t, ?_, tokensFrom_shows v 0 t⟩,
    ?_, tokensFrom_blanks_apart v 0 t, fun c r => ⟨_, _, lexOne?_measures c r, ?_, ?_, ?_, ?_⟩⟩
  · rw [← bytes_eq_utf8ByteSize, ← Nat.zero_add t.bytes]
    exact tokensFrom_offsets v 0 t
  · exact tokensFrom_isBoundary v [] t
  · rw [bytes_cons]
    exact Nat.add_pos_left c.utf8Size_pos _
  · have hcut := ((RestAt.start (c :: r)).drop ((lexeme c r).2 + 1)).add_bytes
    rw [List.take_succ_cons] at hcut
    omega
  · have hcut := ((RestAt.start (c :: r)).drop ((lexeme c r).2 + 1)).isBoundary
    rwa [List.take_succ_cons, Nat.zero_add] at hcut
  · exact cutLength_lexeme c r

end EmbeddedSql.Lexer
