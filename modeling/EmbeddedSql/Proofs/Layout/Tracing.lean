import EmbeddedSql.Proofs.Layout.Indentation

namespace EmbeddedSql.Layout

inductive Runs (query : QueryWriter) : Writer → List Token → Writer → Prop
  | refl {w} : Runs query w [] w
  | token {w t r w'} : opensQuery t r = false → Runs query (w.push t) r w' →
      Runs query w (t :: r) w'
  | group {w t r w'} : opensQuery t r = true →
      Runs query ((query (w.push t) (groupTokens r) ((w.push t).currentDepth + 1)).newline
        (w.push t).currentDepth) (r.drop (groupLength 1 r)) w' →
      Runs query w (t :: r) w'
  | newline {w ts w'} (depth : Nat) : Runs query (w.newline depth) ts w' → Runs query w ts w'
  | continuation {w ts w'} (depth : Nat) : Runs query (w.setContinuation depth) ts w' →
      Runs query w ts w'
  | pad {w ts w'} (width : Nat) : Runs query (w.padTo width) ts w' → Runs query w ts w'

theorem opensQuery_of_not_paren {t : Token} (h : t.isPunct '(' = false) (r : List Token) :
    opensQuery t r = false := by
  rw [opensQuery, h, Bool.false_and]

theorem isPunct_of_isClosing {t : Token} (h : t.isClosing = true) : t.isPunct '(' = false := by
  rcases Bool.or_eq_true_iff.1 h with h | h <;> simp_all [Token.isPunct]

section

variable {query : QueryWriter} {w w' w'' : Writer} {ts us : List Token}

theorem Runs.append (h : Runs query w ts w') (hts : ClosesGroups ts) (h' : Runs query w' us w'') :
    Runs query w (ts ++ us) w'' := by
  induction h with
  | refl => exact h'
  | token hopen _ ih =>
      exact .token ((opensQuery_append hts us).trans hopen) (ih (hts.drop 1) h')
  | @group w t r w' hopen _ ih =>
      obtain ⟨hgroup, hdrop⟩ := hts.group_append (isPunct_of_opensQuery hopen) us
      rw [List.cons_append]
      refine .group ((opensQuery_append hts us).trans hopen) ?_
      rw [hgroup, hdrop]
      exact ih (hts.drop (groupLength 1 r + 1)) h'
  | newline depth _ ih => exact .newline depth (ih hts h')
  | continuation depth _ ih => exact .continuation depth (ih hts h')
  | pad width _ ih => exact .pad width (ih hts h')

theorem writeRun_runs (query : QueryWriter) (depth : Nat) (w : Writer) (ts : List Token) :
    Runs query w ts (writeRun query depth w ts) := by
  fun_induction writeRun query depth w ts with
  | case1 w => exact .refl
  | case2 w t r hopen w₁ level w₂ hdrop =>
      refine .group hopen ?_
      rw [hdrop]
      exact .continuation depth .refl
  | case3 w t r hopen w₁ level w₂ close rest hdrop ih =>
      have hclose := isPunct_of_isClosing (isClosing_of_groupLength hdrop)
      refine .group hopen ?_
      rw [hdrop]
      exact .continuation depth (.token (opensQuery_of_not_paren hclose rest) ih)
  | case4 w t r hopen ih => exact .token (Bool.eq_false_iff.2 hopen) ih

theorem writeTokens_runs (query : QueryWriter) (depth : Nat) (w : Writer) (ts : List Token) :
    Runs query w ts (writeTokens query depth w ts) :=
  .continuation depth (writeRun_runs query depth _ ts)

theorem pushAll_runs (query : QueryWriter) (w : Writer) (hts : ∀ t ∈ ts, t.isPunct '(' = false) :
    Runs query w ts (w.pushAll ts) := by
  induction ts generalizing w with
  | nil => exact .refl
  | cons t r ih =>
      obtain ⟨ht, hr⟩ := List.forall_mem_cons.1 hts
      exact .token (opensQuery_of_not_paren ht r) (ih _ hr)

theorem Runs.comma {comma : Option Token} (h : Runs query w ts w')
    (hcomma : ∀ t ∈ comma, t.isPunct ',' = true ∧ ClosesGroups ts) :
    Runs query w (ts ++ comma.toList) (w'.pushAll comma.toList) := by
  cases comma with
  | none =>
      rw [Option.toList_none, List.append_nil]
      exact h
  | some t =>
      obtain ⟨hpunct, hclosed⟩ := hcomma t rfl
      have hquiet : ∀ u ∈ [t], u.isPunct '(' = false := by simpa using isPunct_of_isComma hpunct
      exact h.append hclosed (pushAll_runs query w' hquiet)

end

theorem foldl_runs {α : Type} {query : QueryWriter} {f : Writer → α → Writer}
    {parts : α → List Token} {xs : List α}
    (hstep : ∀ x ∈ xs, ∀ w, Runs query w (parts x) (f w x))
    (hclose : ∀ x ∈ xs.dropLast, ClosesGroups (parts x)) (w : Writer) :
    Runs query w (xs.flatMap parts) (xs.foldl f w) := by
  induction xs generalizing w with
  | nil => exact .refl
  | cons x xs ih =>
      obtain ⟨hx, hxs⟩ := List.forall_mem_cons.1 hstep
      cases xs with
      | nil => simpa using hx w
      | cons y ys =>
          rw [List.dropLast_cons_cons, List.forall_mem_cons] at hclose
          exact (hx w).append hclose.1 (ih hxs hclose.2 _)

theorem writeItem_runs (query : QueryWriter) (depth column : Nat) (w : Writer) {ts : List Token}
    {place : Option Nat} (hat : ∀ k ∈ place, ClosesGroups (ts.take k)) :
    Runs query w ts (writeItem query depth column w ts place) := by
  cases place with
  | none => exact writeTokens_runs query depth w ts
  | some k =>
      have hfront := writeTokens_runs query depth w (ts.take k)
      have hboth := hfront.append (hat k rfl)
        (.pad column (writeTokens_runs query depth _ (ts.drop k)))
      rwa [List.take_append_drop] at hboth

theorem writeRow_runs (o : LayoutOptions) (query : QueryWriter) (depth column : Nat) (w : Writer)
    {row : Row} (hlead : ∀ t ∈ row.leading, t.isPunct ',' = true)
    (hcomma : ∀ t ∈ row.item.comma, t.isPunct ',' = true ∧ ClosesGroups row.item.tokens)
    (hat : ∀ k ∈ row.aliasAt, ClosesGroups (row.item.tokens.take k)) :
    Runs query w (row.written o) (writeRow o query depth column w row) := by
  have hquiet : ∀ t ∈ row.leading.toList, t.isPunct '(' = false := fun t ht =>
    isPunct_of_isComma (hlead t (by simpa using ht))
  have hfront := Runs.newline depth (pushAll_runs query (w.newline depth) hquiet)
  have hboth := hfront.append (.of_forall hquiet) (writeItem_runs query depth column _ hat)
  rw [writeRow_eq, Row.written]
  split
  next =>
    refine hboth.comma fun t ht => ?_
    obtain ⟨hpunct, hclosed⟩ := hcomma t ht
    exact ⟨hpunct, (ClosesGroups.of_forall hquiet).append hclosed⟩
  next =>
    rw [List.append_nil]
    exact hboth

theorem writeList_runs (o : LayoutOptions) (query : QueryWriter) (depth : Nat) (w : Writer)
    (c : Clause) : Runs query w c.body (writeList o query depth w c) := by
  unfold writeList
  split
  next =>
    have hstep (column : Nat) : ∀ row ∈ rows o c.kind (splitList c.body), ∀ w,
        Runs query w (row.written o) (writeRow o query (depth + 1) column w row) := by
      intro row hrow w
      obtain ⟨hitem, hlead, hat⟩ := mem_rows hrow
      refine writeRow_runs o query (depth + 1) column w ?_ (fun t => splitList_comma hitem) ?_
      · intro t ht
        obtain ⟨source, hsource, hcomma⟩ := hlead t ht
        exact (splitList_comma hsource hcomma).1
      · exact fun k hk => alignedAlias?_closesGroups (hat ▸ hk)
    have hall (column : Nat) := foldl_runs (hstep column) (rows_closesGroups o c.kind c.body) w
    rw [rows_written] at hall
    exact hall _
  next => exact writeTokens_runs query (depth + 1) w c.body

theorem writeCondition_runs (query : QueryWriter) (depth : Nat) (w : Writer) {c : Condition}
    (hop : ∀ t ∈ c.op, t.isPunct '(' = false) :
    Runs query w c.parts (writeCondition query depth w c) := by
  unfold writeCondition Condition.parts
  cases hc : c.op with
  | none => exact writeTokens_runs query depth w c.tokens
  | some op =>
      have hopen := opensQuery_of_not_paren (hop op hc) c.tokens
      exact .newline depth (.token hopen (writeTokens_runs query depth _ c.tokens))

theorem writeConditions_runs (o : LayoutOptions) (query : QueryWriter) (depth : Nat) (w : Writer)
    (c : Clause) : Runs query w c.body (writeConditions o query depth w c) := by
  have hop : ∀ k ∈ splitConditions c.body, ∀ t ∈ k.op, t.isPunct '(' = false := fun k hk t ht =>
    isPunct_of_isKeyword (conditionsFrom_op {} c.body k hk t ht) '('
  unfold writeConditions
  split
  next =>
    have hclose : ∀ k ∈ (splitConditions c.body).dropLast, ClosesGroups k.parts := by
      intro k hk
      refine ClosesGroups.append (.of_forall fun t ht => ?_)
        (splitConditions_closesGroups c.body k hk)
      exact hop k (List.dropLast_subset _ hk) t (by simpa using ht)
    have hall := foldl_runs (fun k hk w => writeCondition_runs query (depth + 1) w (hop k hk))
      hclose w
    rwa [splitConditions_parts] at hall
  next => exact writeTokens_runs query (depth + 1) w c.body

theorem writeCommonTables_runs (query : QueryWriter) (depth : Nat) (w : Writer) (c : Clause) :
    Runs query w c.body (writeCommonTables query depth w c) := by
  have hstep : ∀ item ∈ splitList c.body, ∀ w,
      Runs query w item.parts (writeCommonTable query depth w item) := fun item hitem w =>
    (writeTokens_runs query (depth + 1) w item.tokens).comma fun _ ht => splitList_comma hitem ht
  have hclose := parts_closesGroups c.body
  have hparts := splitList_parts c.body
  unfold writeCommonTables
  cases hitems : splitList c.body with
  | nil =>
      rw [hitems] at hparts
      rw [← hparts]
      exact .refl
  | cons item items =>
      rw [hitems] at hstep hclose hparts
      obtain ⟨hfirst, hrest⟩ := List.forall_mem_cons.1 hstep
      rw [← hparts]
      cases items with
      | nil => simpa using hfirst w
      | cons next items =>
          rw [List.dropLast_cons_cons, List.forall_mem_cons] at hclose
          have hlines := foldl_runs
            (fun item hitem w => Runs.newline depth (hrest item hitem (w.newline depth))) hclose.2
            (writeCommonTable query depth w item)
          exact (hfirst w).append hclose.1 hlines

def Writer.beginClause (w : Writer) (depth : Nat) (c : Clause) : Writer :=
  ((w.newline depth).setContinuation (depth + 1)).setParenSpace (c.kind = .insertInto)

theorem writeClause_runs (o : LayoutOptions) (query : QueryWriter) (depth : Nat) (w : Writer)
    {c : Clause} (hkeyed : c.Keyed) :
    Runs query (w.beginClause depth c) c.tokens (writeClause o query depth w c) := by
  have hquiet : ∀ t ∈ c.head, t.isPunct '(' = false := fun t ht =>
    isPunct_of_isKeyword (hkeyed.1 t ht) '('
  have hhead := pushAll_runs query (w.beginClause depth c) hquiet
  refine hhead.append (.of_forall hquiet) ?_
  dsimp only [writeClause]
  split
  · exact writeList_runs o query depth _ c
  · split
    · exact writeConditions_runs o query depth _ c
    · split
      · exact writeCommonTables_runs query depth _ c
      · exact writeTokens_runs query (depth + 1) _ c.body

end EmbeddedSql.Layout
