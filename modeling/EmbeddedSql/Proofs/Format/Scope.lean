import EmbeddedSql.Layout.Query
import EmbeddedSql.Proofs.Clause.First
import EmbeddedSql.Proofs.Text.Trimming
import EmbeddedSql.Proofs.Token.Stream

namespace EmbeddedSql

open Text Lexer

theorem Text.dropBytes_append (s t : Text) : dropBytes s.bytes (s ++ t) = t := by
  rw [dropBytes, splitAtByte?_append]
  rfl

def laidOut (scope : StatementScope) (ts : List Token) : List Token :=
  match scope with
  | .all => ts
  | .first => ts.take ((firstStatementLength? ts).getD ts.length)

theorem laidOut_front (scope : StatementScope) (ts : List Token) : laidOut scope ts <+: ts := by
  cases scope with
  | all => exact List.prefix_rfl
  | first => exact List.take_prefix _ ts

theorem laidOut_append {scope : StatementScope} {ts : List Token}
    (h : scope = .first → ∃ depth, openAfter 0 ts = some depth) (us : List Token) :
    ∃ us', laidOut scope (ts ++ us) = ts ++ us' := by
  cases scope with
  | all => exact ⟨us, rfl⟩
  | first =>
      obtain ⟨depth, hdepth⟩ := h rfl
      refine ⟨us.take ((firstStatementFrom? depth us).getD us.length), ?_⟩
      rw [laidOut, firstStatementLength?, firstStatementFrom?_append hdepth]
      cases firstStatementFrom? depth us with
      | none => simp [List.take_of_length_le]
      | some n =>
          rw [Option.map_some, Option.getD_some, Option.getD_some, Nat.add_comm,
            List.take_length_add_append]

section Pass

variable {v : Vocabulary} (o : LayoutOptions) {scope : StatementScope} {sql : Text}

theorem formatText_whole
    (h : scope = .first → firstStatementLength? (v.tokenize sql) = none) :
    laidOut scope (v.tokenize sql) = v.tokenize sql ∧
      formatText v o scope sql = Layout.format o (v.tokenize sql) := by
  cases scope with
  | all => exact ⟨rfl, rfl⟩
  | first =>
      rw [laidOut, formatText, h rfl]
      simp

structure Cut (v : Vocabulary) (sql : Text) (before : List Token) (last : Token) (rest : Text) :
    Prop where
  tokens : v.tokenize sql = before ++ last :: tokensFrom v (last.offset + 1) rest
  opens : openAfter 0 before = some 0
  semicolon : last.isPunct ';' = true
  more : (tokensFrom v (last.offset + 1) rest).any Token.isSignificant = true
  rest : sql.dropBytes (last.offset + 1) = rest

theorem isSignificant_of_isPunct {t : Token} {c : Char} (h : t.isPunct c = true) :
    t.isSignificant = true := by
  have hkind : t.kind = .punctuation := by simp_all [Token.isPunct]
  simp [Token.isSignificant, hkind, TokenKind.isSignificant]

theorem Cut.isSignificant {before : List Token} {last : Token} {rest : Text}
    (h : Cut v sql before last rest) : last.isSignificant = true :=
  isSignificant_of_isPunct h.semicolon

theorem exists_cut {n : Nat} (h : firstStatementLength? (v.tokenize sql) = some n) :
    ∃ before last rest, Cut v sql before last rest := by
  obtain ⟨before, last, after, htokens, -, hopens, hlast, hafter⟩ := firstStatementFrom?_eq_some h
  have htext : last.text = [';'] := by simp_all [Token.isPunct]
  obtain ⟨u, rest, hsql, hoffset, -, rfl⟩ :=
    tokensFrom_eq_append (isSignificant_of_isPunct hlast) htokens
  rw [htext] at hsql htokens hafter
  have hbytes : last.offset + 1 = bytes (u ++ [';']) := by
    rw [hoffset, Nat.zero_add, bytes_append]
    rfl
  refine ⟨before, last, rest, htokens, hopens, hlast, hafter, ?_⟩
  rw [hbytes, hsql, dropBytes_append]

theorem formatText_cut {before : List Token} {last : Token} {rest : Text}
    (h : Cut v sql before last rest) :
    laidOut .first (v.tokenize sql) = before ++ [last] ∧ formatText v o .first sql =
      (Layout.format o (before ++ [last])).trimEndWhile (· == '\n') ++ rest := by
  have hlength : firstStatementLength? (v.tokenize sql) = some (before.length + 1) := by
    rw [firstStatementLength?, h.tokens, firstStatementFrom?_append h.opens, firstStatementFrom?,
      h.semicolon, h.more]
    simp [Nat.add_comm]
  have htake : (v.tokenize sql).take (before.length + 1) = before ++ [last] := by
    rw [h.tokens, List.take_length_add_append]
    rfl
  have hget : (v.tokenize sql)[before.length]? = some last := by
    rw [h.tokens]
    simp
  constructor
  · rw [laidOut, hlength, Option.getD_some, htake]
  · simp only [formatText, hlength, Option.bind_eq_bind, Option.bind_some, Nat.add_sub_cancel, hget,
      htake]
    exact congrArg (_ ++ ·) h.rest

theorem formatText_begins {s t : Text} {c : Char} (hc : c ≠ '\n')
    (h : Layout.format o (laidOut scope (v.tokenize sql)) = s ++ c :: t) :
    ∃ u, formatText v o scope sql = s ++ c :: u := by
  by_cases hwhole : scope = .first → firstStatementLength? (v.tokenize sql) = none
  · obtain ⟨hlaid, htext⟩ := formatText_whole o hwhole
    exact ⟨t, by rw [htext, ← h, hlaid]⟩
  · obtain ⟨rfl, hsome⟩ := Classical.not_imp.1 hwhole
    obtain ⟨n, hn⟩ := Option.ne_none_iff_exists'.1 hsome
    obtain ⟨before, last, rest, hcut⟩ := exists_cut hn
    obtain ⟨hlaid, htext⟩ := formatText_cut o hcut
    refine ⟨trimEndWhile (· == '\n') t ++ rest, ?_⟩
    rw [htext, ← hlaid, h, trimEndWhile_append_cons (by simpa using hc), List.append_assoc,
      List.cons_append]

end Pass

theorem any_isSignificant_tokensFrom (v : Vocabulary) (m n : Nat) (s : Text) :
    (tokensFrom v m s).any Token.isSignificant = (tokensFrom v n s).any Token.isSignificant := by
  fun_induction tokensFrom v m s generalizing n with
  | case1 => simp [tokensFrom]
  | case2 m c r kind length hlexeme text ih =>
      rw [tokensFrom_cons, hlexeme, List.any_cons, List.any_cons, token_isSignificant,
        token_isSignificant]
      exact congrArg _ (ih _)

end EmbeddedSql
