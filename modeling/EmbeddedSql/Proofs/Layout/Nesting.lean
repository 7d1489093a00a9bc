import Mathlib.Data.List.Basic
import EmbeddedSql.Proofs.Layout.Writing

namespace EmbeddedSql.Layout

def opensQuery (t : Token) (r : List Token) : Bool := t.isPunct '(' && isSubquery (groupTokens r)

theorem length_lt_of_drop {n : Nat} {r : List Token} {close : Token} {rest : List Token}
    (hdrop : r.drop n = close :: rest) : rest.length < r.length := by
  have hlength := congrArg List.length hdrop
  simp only [List.length_drop, List.length_cons] at hlength
  omega

@[elab_as_elim]
theorem run_induction {motive : List Token → Prop} (nil : motive [])
    (token : ∀ t r, opensQuery t r = false → motive r → motive (t :: r))
    (unclosed : ∀ t r, opensQuery t r = true → r.drop (groupLength 1 r) = [] → motive (t :: r))
    (group : ∀ t r close rest, opensQuery t r = true →
      r.drop (groupLength 1 r) = close :: rest → motive rest → motive (t :: r))
    (ts : List Token) : motive ts := by
  induction hn : ts.length using Nat.strongRecOn generalizing ts with
  | _ n ih =>
  subst hn
  cases ts with
  | nil => exact nil
  | cons t r =>
      cases hopen : opensQuery t r with
      | false => exact token t r hopen (ih r.length (by simp) r rfl)
      | true =>
          cases hdrop : r.drop (groupLength 1 r) with
          | nil => exact unclosed t r hopen hdrop
          | cons close rest =>
              have hrest := length_lt_of_drop hdrop
              have hshort : rest.length < (t :: r).length := by
                rw [List.length_cons]
                omega
              exact group t r close rest hopen hdrop (ih rest.length hshort rest rfl)

section

variable (query : QueryWriter) (depth : Nat) (w : Writer) {t : Token} {r : List Token}

def writeGroup (t : Token) (r : List Token) : Writer :=
  let w := w.push t
  ((query w (groupTokens r) (w.currentDepth + 1)).newline w.currentDepth).setContinuation depth

theorem writeRun_token (h : opensQuery t r = false) :
    writeRun query depth w (t :: r) = writeRun query depth (w.push t) r := by
  rw [writeRun, ← opensQuery, if_neg (by simp [h])]

theorem writeRun_open (h : opensQuery t r = true)
    (hdrop : r.drop (groupLength 1 r) = []) :
    writeRun query depth w (t :: r) = writeGroup query depth w t r := by
  rw [writeRun, ← opensQuery, if_pos h]
  dsimp only
  split
  · rfl
  next close rest hcons => simp [hdrop] at hcons

theorem writeRun_group (h : opensQuery t r = true)
    {close : Token} {rest : List Token} (hdrop : r.drop (groupLength 1 r) = close :: rest) :
    writeRun query depth w (t :: r) =
      writeRun query depth ((writeGroup query depth w t r).push close) rest := by
  rw [writeRun, ← opensQuery, if_pos h]
  dsimp only
  split
  next hnil => simp [hdrop] at hnil
  next close' rest' hcons =>
    obtain ⟨rfl, rfl⟩ := List.cons.inj (hcons.symm.trans hdrop)
    rfl

end

def QueryWriter.AgreeUpTo (n : Nat) (query query' : QueryWriter) : Prop :=
  ∀ w ts depth, ts.length ≤ n → query w ts depth = query' w ts depth

theorem length_le_of_parts {α : Type} {f : α → List Token} {xs : List α} {ts : List Token}
    (hparts : xs.flatMap f = ts) {x : α} (hx : x ∈ xs) : (f x).length ≤ ts.length := by
  rw [← hparts, List.flatMap_def]
  exact (List.sublist_flatten_of_mem (List.mem_map_of_mem hx)).length_le

section

variable {n : Nat} {query query' : QueryWriter} (h : query.AgreeUpTo n query')

include h

theorem writeRun_agree (depth : Nat) (w : Writer) {ts : List Token} (hts : ts.length ≤ n + 1) :
    writeRun query depth w ts = writeRun query' depth w ts := by
  have hgroup {w : Writer} {t : Token} {r : List Token} (hr : r.length ≤ n) :
      writeGroup query depth w t r = writeGroup query' depth w t r := by
    have hlength : (groupTokens r).length ≤ n := by simp [groupTokens]; omega
    simp only [writeGroup, h _ _ _ hlength]
  induction ts using run_induction generalizing w with
  | nil => rw [writeRun, writeRun]
  | token t r hopen ih =>
      rw [List.length_cons] at hts
      rw [writeRun_token query depth w hopen, writeRun_token query' depth w hopen]
      exact ih _ (by omega)
  | unclosed t r hopen hdrop =>
      rw [List.length_cons] at hts
      rw [writeRun_open query depth w hopen hdrop, writeRun_open query' depth w hopen hdrop,
        hgroup (by omega)]
  | group t r close rest hopen hdrop ih =>
      rw [List.length_cons] at hts
      have hrest := length_lt_of_drop hdrop
      rw [writeRun_group query depth w hopen hdrop, writeRun_group query' depth w hopen hdrop,
        hgroup (by omega)]
      exact ih _ (by omega)

theorem writeTokens_agree (depth : Nat) (w : Writer) {ts : List Token} (hts : ts.length ≤ n + 1) :
    writeTokens query depth w ts = writeTokens query' depth w ts :=
  writeRun_agree h depth _ hts

theorem writeRow_agree (o : LayoutOptions) (depth column : Nat) (w : Writer) {row : Row}
    (hrow : row.item.tokens.length ≤ n + 1) :
    writeRow o query depth column w row = writeRow o query' depth column w row := by
  unfold writeRow
  cases row.aliasAt with
  | none => simp only [writeTokens_agree h depth _ hrow]
  | some k =>
      have htake : (row.item.tokens.take k).length ≤ n + 1 := by simp; omega
      have hdrop : (row.item.tokens.drop k).length ≤ n + 1 := by simp; omega
      simp only [writeTokens_agree h depth _ htake, writeTokens_agree h depth _ hdrop]

theorem writeList_agree (o : LayoutOptions) (depth : Nat) (w : Writer) {c : Clause}
    (hc : c.body.length ≤ n + 1) :
    writeList o query depth w c = writeList o query' depth w c := by
  unfold writeList
  split
  · refine List.foldl_ext _ _ _ fun w row hrow => writeRow_agree h o _ _ w ?_
    obtain ⟨⟨item, leading⟩, hzip, rfl⟩ := List.mem_map.1 hrow
    have hparts := length_le_of_parts (splitList_parts c.body) (List.of_mem_zip hzip).1
    simp only [ListItem.parts, List.length_append] at hparts
    show item.tokens.length ≤ n + 1
    omega
  · exact writeTokens_agree h _ w hc

theorem writeConditions_agree (o : LayoutOptions) (depth : Nat) (w : Writer) {c : Clause}
    (hc : c.body.length ≤ n + 1) :
    writeConditions o query depth w c = writeConditions o query' depth w c := by
  unfold writeConditions
  split
  · refine List.foldl_ext _ _ _ fun w link hlink => ?_
    have hparts := length_le_of_parts (splitConditions_parts c.body) hlink
    simp only [Condition.parts, List.length_append] at hparts
    have hlength : link.tokens.length ≤ n + 1 := by omega
    simp only [writeCondition, writeTokens_agree h _ _ hlength]
  · exact writeTokens_agree h _ w hc

theorem writeCommonTables_agree (depth : Nat) (w : Writer) {c : Clause}
    (hc : c.body.length ≤ n + 1) :
    writeCommonTables query depth w c = writeCommonTables query' depth w c := by
  have hitem : ∀ item ∈ splitList c.body, ∀ w,
      writeCommonTable query depth w item = writeCommonTable query' depth w item := by
    intro item hitem w
    have hparts := length_le_of_parts (splitList_parts c.body) hitem
    simp only [ListItem.parts, List.length_append] at hparts
    have hlength : item.tokens.length ≤ n + 1 := by omega
    rw [writeCommonTable, writeCommonTable, writeTokens_agree h _ w hlength]
  unfold writeCommonTables
  cases hitems : splitList c.body with
  | nil => rfl
  | cons item items =>
      rw [hitems] at hitem
      dsimp only
      rw [hitem item (by simp) w]
      exact List.foldl_ext _ _ _ fun w item hmem => hitem item (by simp [hmem]) _

theorem writeClause_agree (o : LayoutOptions) (depth : Nat) (w : Writer) {c : Clause}
    (hc : c.body.length ≤ n + 1) :
    writeClause o query depth w c = writeClause o query' depth w c := by
  simp only [writeClause, writeList_agree h o depth _ hc, writeConditions_agree h o depth _ hc,
    writeCommonTables_agree h depth _ hc, writeTokens_agree h _ _ hc]

end

theorem splitClauses_nil : splitClauses [] = [] := by
  simp [splitClauses, Clause.splitFrom]

theorem writeQuery_succ (o : LayoutOptions) (n : Nat) :
    (writeQuery o n).AgreeUpTo n (writeQuery o (n + 1)) := by
  induction n with
  | zero =>
      intro w ts depth hts
      obtain rfl := List.length_eq_zero_iff.1 (Nat.le_zero.1 hts)
      rw [writeQuery, writeQuery, splitClauses_nil]
      rfl
  | succ n ih =>
      intro w ts depth hts
      rw [writeQuery, writeQuery]
      refine List.foldl_ext _ _ _ fun w c hc => writeClause_agree ih o depth w ?_
      have hparts := length_le_of_parts (splitClauses_tokens ts) hc
      simp only [Clause.tokens, List.length_append] at hparts
      omega

theorem writeQuery_enough (o : LayoutOptions) {ts : List Token} {n : Nat} (h : ts.length ≤ n)
    (w : Writer) (depth : Nat) :
    writeQuery o n w ts depth = writeQuery o ts.length w ts depth := by
  induction h with
  | refl => rfl
  | @step n hn ih => rw [← writeQuery_succ o n w ts depth hn, ih]

end EmbeddedSql.Layout
