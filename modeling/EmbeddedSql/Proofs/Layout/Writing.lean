import EmbeddedSql.Layout.Query
import EmbeddedSql.Proofs.Clause.Partition

namespace EmbeddedSql.Layout

def Writer.Settled (w : Writer) : Prop := w.inline = true ∨ w.pendingBreak = false

/-- The second writer is reached from the first by writing the tokens. Lines before the first token
begin at the margin, and a line is filled with spaces only to put a token after them. -/
inductive Writes (w : Writer) : List Token → Writer → Prop
  | refl : Writes w [] w
  | push {ts w'} (t : Token) : Writes w ts w' → Writes w (ts ++ [t]) (w'.push t)
  | padded {ts w'} (n : Nat) (t : Token) : Writes w ts w' → w'.last.isSome = true → w'.Settled →
      Writes w (ts ++ [t]) ((w'.padTo n).push t)
  | newline {ts w'} (depth : Nat) : Writes w ts w' → depth = 0 ∨ w'.last.isSome = true →
      Writes w ts (w'.newline depth)
  | continuation {ts w'} (depth : Nat) : Writes w ts w' → Writes w ts (w'.setContinuation depth)
  | parenSpace {ts w'} (on : Bool) : Writes w ts w' → Writes w ts (w'.setParenSpace on)

namespace Writes

theorem trans {w w' w'' : Writer} {ts us : List Token} (h : Writes w ts w')
    (h' : Writes w' us w'') : Writes w (ts ++ us) w'' := by
  induction h' with
  | refl => simpa using h
  | push t _ ih => rw [← List.append_assoc]; exact ih.push t
  | padded n t _ hl hs ih => rw [← List.append_assoc]; exact ih.padded n t hl hs
  | newline d _ hd ih => exact ih.newline d hd
  | continuation d _ ih => exact ih.continuation d
  | parenSpace b _ ih => exact ih.parenSpace b

theorem one (w : Writer) (t : Token) : Writes w [t] (w.push t) := Writes.refl.push t

theorem all (w : Writer) (ts : List Token) : Writes w ts (w.pushAll ts) := by
  induction ts generalizing w with
  | nil => exact .refl
  | cons t r ih => exact (one w t).trans (ih (w.push t))

end Writes

namespace Line

@[simp] theorem push_isEmpty (l : Line) (p : Piece) :
    (l.push p).isEmpty = (l.isEmpty && p.isEmpty) := by
  simp [push, isEmpty]

end Line

namespace Writer

theorem newline_eq {w : Writer} (h : w.inline = false) (depth : Nat) :
    ∃ finished line, w.newline depth =
        { w with pendingBreak := false, finished := finished, current := some line } ∧
      line.isEmpty = true ∧ line.depth = depth ∧
      finished.filter (fun l => !l.isEmpty) = w.lines := by
  unfold newline lines
  rw [if_neg (by simp [h])]
  cases hc : w.current with
  | none => exact ⟨w.finished, { depth := depth }, by simp [Line.isEmpty]⟩
  | some l =>
      dsimp only
      cases hl : l.isEmpty with
      | true => exact ⟨w.finished, { l with depth := depth }, by simpa [Line.isEmpty] using hl⟩
      | false => exact ⟨w.finished ++ [l], { depth := depth }, by simp [Line.isEmpty]⟩

theorem flatMap_lines {α : Type} {w : Writer} {g : Line → List α}
    (hg : ∀ l, l.isEmpty = true → g l = []) :
    w.lines.flatMap g = (w.finished ++ w.current.toList).flatMap g := by
  unfold lines
  induction w.finished ++ w.current.toList with
  | nil => rfl
  | cons l ls ih => cases hl : l.isEmpty <;> simp_all

theorem newline_inlined {w : Writer} (h : w.inline = true) (depth : Nat) :
    w.newline depth = w := by
  simp [newline, h]

@[simp] theorem newline_last (w : Writer) (depth : Nat) : (w.newline depth).last = w.last := by
  cases h : w.inline with
  | true => rw [newline_inlined h]
  | false => obtain ⟨_, _, hn, _⟩ := newline_eq h depth; rw [hn]

@[simp] theorem newline_inline (w : Writer) (depth : Nat) :
    (w.newline depth).inline = w.inline := by
  cases h : w.inline with
  | true => rw [newline_inlined h, h]
  | false => obtain ⟨_, _, hn, _⟩ := newline_eq h depth; rw [hn, ← h]

theorem newline_settled (w : Writer) (depth : Nat) : (w.newline depth).Settled := by
  cases h : w.inline with
  | true => exact .inl (by simpa using h)
  | false => obtain ⟨_, _, hn, _⟩ := newline_eq h depth; exact .inr (by rw [hn])

theorem padTo_eq (w : Writer) (n : Nat) :
    w.padTo n = w ∨ ∃ l k, w.current = some l ∧ 0 < k ∧
      w.padTo n = { w with current := some (l.push (.spaces k)) } := by
  unfold padTo
  cases h : w.current with
  | none => exact .inl rfl
  | some l =>
      dsimp only
      split
      next hlt => exact .inr ⟨l, n - w.currentWidth, rfl, by omega, rfl⟩
      · exact .inl rfl

theorem setContinuation_padTo (w : Writer) (n depth : Nat) :
    (w.padTo n).setContinuation depth = (w.setContinuation depth).padTo n := by
  unfold padTo
  cases h : w.current with
  | none => simp [setContinuation, h]
  | some l =>
      simp only [setContinuation, currentWidth, h]
      split <;> simp [h]

theorem padTo_inline (w : Writer) (n : Nat) : (w.padTo n).inline = w.inline := by
  rcases padTo_eq w n with h | ⟨l, k, _, _, h⟩ <;> rw [h]

theorem padTo_settled {w : Writer} (h : w.Settled) (n : Nat) : (w.padTo n).Settled := by
  rcases padTo_eq w n with hn | ⟨l, k, _, _, hn⟩ <;> rw [hn] <;> exact h

theorem settle_of_settled {w : Writer} (h : w.Settled) : w.settle = w := by
  unfold settle
  rcases h with hi | hp
  · simp [newline_inlined hi]
  · simp [hp]

theorem settle_inline (w : Writer) : w.settle.inline = w.inline := by
  unfold settle
  split <;> simp

@[simp] theorem push_last (w : Writer) (t : Token) : (w.push t).last = some t := rfl

@[simp] theorem push_inline (w : Writer) (t : Token) : (w.push t).inline = w.inline :=
  settle_inline w

theorem push_settled {w : Writer} {t : Token} (h : w.Settled) (ht : t.isLineComment = false) :
    (w.push t).Settled := by
  rcases h with h | h
  · exact .inl (by simpa using h)
  · exact .inr (by simp [push, settle, h, ht])

end Writer

namespace Writes

variable {w w' : Writer} {ts : List Token}

theorem last_isSome (h : Writes w ts w') (hs : ts ≠ [] ∨ w.last.isSome = true) :
    w'.last.isSome = true := by
  induction h with
  | refl => simpa using hs
  | push t _ _ => rfl
  | padded n t _ _ _ _ => rfl
  | newline d _ _ ih => simpa using ih hs
  | continuation d _ ih => exact ih hs
  | parenSpace b _ ih => exact ih hs

theorem inline_eq (h : Writes w ts w') : w'.inline = w.inline := by
  induction h with
  | refl => rfl
  | push t _ ih => simpa using ih
  | padded n t _ _ _ ih => simpa [Writer.padTo_inline] using ih
  | newline d _ _ ih => simpa using ih
  | continuation d _ ih => exact ih
  | parenSpace b _ ih => exact ih

theorem settled (h : Writes w ts w') (hw : w.Settled)
    (hts : ∀ t ∈ ts, t.isLineComment = false) : w'.Settled := by
  induction h with
  | refl => exact hw
  | push t _ ih =>
      exact Writer.push_settled (ih fun u hu => hts u (by simp [hu])) (hts t (by simp))
  | padded n t _ _ hs ih => exact Writer.push_settled (Writer.padTo_settled hs n) (hts t (by simp))
  | newline d _ _ _ => exact Writer.newline_settled _ d
  | continuation d _ ih => exact ih hts
  | parenSpace b _ ih => exact ih hts

end Writes

def QueryWriter.InOrder (query : QueryWriter) : Prop :=
  ∀ w ts depth, depth = 0 ∨ w.last.isSome = true → Writes w ts (query w ts depth)

section

variable {query : QueryWriter} (hq : query.InOrder)

include hq

theorem writeRun_writes (depth : Nat) (w : Writer) (ts : List Token) :
    Writes w ts (writeRun query depth w ts) := by
  fun_induction writeRun query depth w ts with
  | case1 w => exact .refl
  | case2 w t r hsub w₁ level w₂ hdrop =>
      have hr : groupTokens r = r := by simpa [hdrop] using groupTokens_append r
      have hgroup : Writes w₁ r (query w₁ (groupTokens r) (level + 1)) := by
        simpa [hr] using hq w₁ (groupTokens r) (level + 1) (.inr rfl)
      have hone := (Writes.one w t).trans hgroup
      exact (hone.newline level (.inr (hone.last_isSome (.inl (by simp))))).continuation depth
  | case3 w t r hsub w₁ level w₂ close rest hdrop ih =>
      have hr : groupTokens r ++ close :: rest = r := by simpa [hdrop] using groupTokens_append r
      have hone := (Writes.one w t).trans (hq w₁ (groupTokens r) (level + 1) (.inr rfl))
      have hlast := hone.last_isSome (.inl (by simp))
      have hclose := ((hone.newline level (.inr hlast)).continuation depth).push close
      simpa [hr] using hclose.trans ih
  | case4 w t r hsub ih => exact (Writes.one w t).trans ih

theorem writeTokens_writes (depth : Nat) (w : Writer) (ts : List Token) :
    Writes w ts (writeTokens query depth w ts) :=
  (Writes.refl.continuation depth).trans (writeRun_writes hq depth _ ts)

end

theorem itemsFrom_last (depth : Nat) (ts : List Token) :
    ∃ init last, itemsFrom depth ts = init ++ [⟨last, none⟩] := by
  induction ts generalizing depth with
  | nil => exact ⟨[], [], rfl⟩
  | cons t r ih =>
      obtain ⟨init, last, hr⟩ := ih (Token.depthAfter depth t)
      simp only [itemsFrom]
      split
      · exact ⟨⟨[], some t⟩ :: init, last, by rw [hr]; rfl⟩
      · rw [hr]
        cases init with
        | nil => exact ⟨[], t :: last, rfl⟩
        | cons item init => exact ⟨⟨t :: item.tokens, item.comma⟩ :: init, last, rfl⟩

theorem aliasFrom?_named {depth n : Nat} {ts : List Token} (h : aliasFrom? depth ts = some n) :
    ∃ t r, ts.drop n = t :: r ∧ t.isKeywordNamed ['A', 'S'] = true := by
  induction ts generalizing depth n with
  | nil => simp [aliasFrom?] at h
  | cons t r ih =>
      simp only [aliasFrom?] at h
      cases hr : aliasFrom? (Token.depthAfter depth t) r with
      | some m =>
          obtain rfl : m + 1 = n := by simpa [hr] using h
          exact ih hr
      | none =>
          obtain ⟨⟨-, hnamed⟩, rfl⟩ : (_ ∧ _) ∧ 0 = n := by simpa [hr] using h
          exact ⟨t, r, rfl, hnamed⟩

theorem aliasFrom?_drop {depth n : Nat} {ts : List Token} (h : aliasFrom? depth ts = some n) :
    ∃ t r, ts.drop n = t :: r ∧ t.isKeyword = true := by
  obtain ⟨t, r, hdrop, hnamed⟩ := aliasFrom?_named h
  exact ⟨t, r, hdrop, (Bool.and_eq_true_iff.1 hnamed).1⟩

def writeItem (query : QueryWriter) (depth column : Nat) (w : Writer) (ts : List Token) :
    Option Nat → Writer
  | some n => writeTokens query depth
      ((writeTokens query depth w (ts.take n)).padTo column) (ts.drop n)
  | none => writeTokens query depth w ts

theorem writeRow_eq (o : LayoutOptions) (query : QueryWriter) (depth column : Nat) (w : Writer)
    (row : Row) : writeRow o query depth column w row =
      (writeItem query depth column ((w.newline depth).pushAll row.leading.toList) row.item.tokens
        row.aliasAt).pushAll
          (if o.commaPosition = .trailing && !row.item.endsInLineComment then
            row.item.comma.toList else []) := by
  unfold writeRow
  cases row.aliasAt <;> dsimp only <;> split <;> rfl

def Row.written (o : LayoutOptions) (row : Row) : List Token :=
  row.leading.toList ++ row.item.tokens ++
    if o.commaPosition = .trailing && !row.item.endsInLineComment then row.item.comma.toList
    else []

theorem written_carriedComma (o : LayoutOptions) (row : Row) :
    row.written o ++ (carriedComma o row.item).toList = row.leading.toList ++ row.item.parts := by
  unfold Row.written carriedComma ListItem.parts
  cases o.commaPosition with
  | leading => simp
  | trailing => cases row.item.endsInLineComment <;> simp

def Row.Aligned (row : Row) : Prop :=
  (∀ t ∈ row.leading, t.isLineComment = false) ∧
  ∀ n ∈ row.aliasAt, (∃ t r, row.item.tokens.drop n = t :: r ∧ t.isKeyword = true) ∧
    ∀ t ∈ row.item.tokens.take n, t.isLineComment = false

theorem writeAligned_writes {query : QueryWriter} (hq : query.InOrder) (depth column : Nat)
    {w : Writer} {ts r : List Token} {n : Nat} {t : Token} (hdrop : ts.drop n = t :: r)
    (hkey : t.isKeyword = true) (hquiet : ∀ u ∈ ts.take n, u.isLineComment = false)
    (hw : w.last.isSome = true) (hs : w.Settled) :
    Writes w ts (writeTokens query depth ((writeTokens query depth w (ts.take n)).padTo column)
      (ts.drop n)) := by
  have htake := writeTokens_writes hq depth w (ts.take n)
  have hpad := ((htake.continuation depth).padded column t (htake.last_isSome (.inr hw))
    (htake.settled hs hquiet)).trans (writeRun_writes hq depth _ r)
  have hparen : (t.isPunct '(' && isSubquery (groupTokens r)) = false := by
    simp_all [Token.isPunct, Token.isKeyword]
  have hsplit : ts.take n ++ t :: r = ts := by rw [← hdrop, List.take_append_drop]
  rw [hdrop, writeTokens, Writer.setContinuation_padTo, writeRun, if_neg (by simp [hparen])]
  simpa [hsplit] using hpad

theorem writeRow_writes (o : LayoutOptions) {query : QueryWriter} (hq : query.InOrder)
    (depth column : Nat) {w : Writer} {row : Row} (hrow : row.Aligned)
    (hw : w.last.isSome = true) :
    Writes w (row.written o) (writeRow o query depth column w row) := by
  have hnew : Writes w [] (w.newline depth) := Writes.refl.newline depth (.inr hw)
  have hlead := Writes.all (w.newline depth) row.leading.toList
  have hlast := hlead.last_isSome (.inr (by simpa using hw))
  have hsettled := hlead.settled (Writer.newline_settled w depth)
    (fun u hu => hrow.1 u (by simpa using hu))
  have hitem : Writes ((w.newline depth).pushAll row.leading.toList) row.item.tokens
      (writeItem query depth column ((w.newline depth).pushAll row.leading.toList) row.item.tokens
        row.aliasAt) := by
    cases hat : row.aliasAt with
    | none => exact writeTokens_writes hq depth _ row.item.tokens
    | some n =>
        obtain ⟨⟨t, r, hdrop, hkey⟩, hquiet⟩ := hrow.2 n hat
        exact writeAligned_writes hq depth column hdrop hkey hquiet hlast hsettled
  rw [writeRow_eq]
  exact ((hnew.trans hlead).trans hitem).trans (Writes.all _ _)

theorem needsBreak_quiet {ts : List Token} (h : needsBreak ts = false) :
    ∀ t ∈ ts, t.isLineComment = false := by
  intro t ht
  have hbreak : t.forcesBreak = false := by
    have := (Bool.or_eq_false_iff.1 h).1
    exact List.any_eq_false.1 this t ht |> Bool.eq_false_iff.2
  exact (Bool.or_eq_false_iff.1 hbreak).1

theorem isPunct_not_isLineComment {t : Token} {c : Char} (h : t.isPunct c = true) :
    t.isLineComment = false := by
  simp_all [Token.isPunct, Token.isLineComment]

theorem carriedComma_mem {o : LayoutOptions} {item : ListItem} {t : Token}
    (h : t ∈ carriedComma o item) : t ∈ item.comma := by
  unfold carriedComma at h
  split at h
  · exact h
  · split at h
    · exact h
    · simp at h

theorem alignedAlias?_aligned {o : LayoutOptions} {kind : ClauseKind} {item : ListItem} {n : Nat}
    (h : n ∈ alignedAlias? o kind item) :
    (∃ t r, item.tokens.drop n = t :: r ∧ t.isKeyword = true) ∧
      ∀ t ∈ item.tokens.take n, t.isLineComment = false := by
  obtain ⟨hat, hfilter⟩ := Option.filter_eq_some_iff.1 h
  have hbreak : needsBreak (item.tokens.take n) = false := by simp_all
  exact ⟨aliasFrom?_drop hat, needsBreak_quiet hbreak⟩

def rowsAfter (o : LayoutOptions) (kind : ClauseKind) (leading : Option Token)
    (items : List ListItem) : List Row :=
  (items.zip (leading :: items.map (carriedComma o))).map fun (item, leading) =>
    ⟨leading, item, alignedAlias? o kind item⟩

theorem rowsAfter_cons (o : LayoutOptions) (kind : ClauseKind) (leading : Option Token)
    (item : ListItem) (items : List ListItem) :
    rowsAfter o kind leading (item :: items) =
      ⟨leading, item, alignedAlias? o kind item⟩ ::
        rowsAfter o kind (carriedComma o item) items := rfl

theorem rows_writes (o : LayoutOptions) {query : QueryWriter} (hq : query.InOrder)
    (kind : ClauseKind) (depth column : Nat) {w : Writer} {items : List ListItem}
    (last : List Token) (leading : Option Token)
    (hitems : ∀ item ∈ items, ∀ t ∈ item.comma, t.isPunct ',' = true)
    (hlead : ∀ t ∈ leading, t.isPunct ',' = true) (hw : w.last.isSome = true) :
    Writes w (leading.toList ++ (items ++ [ListItem.mk last none]).flatMap ListItem.parts)
      ((rowsAfter o kind leading (items ++ [ListItem.mk last none])).foldl
        (writeRow o query depth column) w) := by
  induction items generalizing w leading with
  | nil =>
      have hrow : (⟨leading, ⟨last, none⟩, alignedAlias? o kind ⟨last, none⟩⟩ : Row).Aligned :=
        ⟨fun t ht => isPunct_not_isLineComment (hlead t ht), fun n hn => alignedAlias?_aligned hn⟩
      simpa [rowsAfter, Row.written, ListItem.parts] using
        writeRow_writes o hq depth column hrow hw
  | cons item items ih =>
      have hrow : (⟨leading, item, alignedAlias? o kind item⟩ : Row).Aligned :=
        ⟨fun t ht => isPunct_not_isLineComment (hlead t ht), fun n hn => alignedAlias?_aligned hn⟩
      have hfirst := writeRow_writes o hq depth column hrow hw
      have hrest := ih (carriedComma o item)
        (fun i hi => hitems i (by simp [hi]))
        (fun t ht => hitems item (by simp) t (carriedComma_mem ht))
        (hfirst.last_isSome (.inr hw))
      have hboth := hfirst.trans hrest
      rw [← List.append_assoc, written_carriedComma o] at hboth
      simpa [rowsAfter_cons] using hboth

theorem writeList_writes (o : LayoutOptions) {query : QueryWriter} (hq : query.InOrder)
    (depth : Nat) {w : Writer} (c : Clause) (hw : w.last.isSome = true) :
    Writes w c.body (writeList o query depth w c) := by
  unfold writeList
  split
  · obtain ⟨init, last, hlast⟩ := itemsFrom_last 0 c.body
    have hcomma : ∀ item ∈ init, ∀ t ∈ item.comma, t.isPunct ',' = true := fun item hitem =>
      itemsFrom_comma 0 c.body item (by rw [hlast]; simp [hitem])
    have hrows := rows_writes o hq c.kind (depth + 1)
      (((rows o c.kind (splitList c.body)).filterMap (Row.aliasColumn? o)).max?.getD 0)
      last none hcomma (by simp) hw
    rw [← hlast, itemsFrom_parts] at hrows
    exact hrows
  · exact writeTokens_writes hq (depth + 1) w c.body

theorem writeCondition_writes {query : QueryWriter} (hq : query.InOrder) (depth : Nat)
    {w : Writer} (c : Condition) (hw : w.last.isSome = true) :
    Writes w c.parts (writeCondition query depth w c) := by
  unfold writeCondition Condition.parts
  cases c.op with
  | none => exact writeTokens_writes hq depth w c.tokens
  | some op =>
      have hop := (Writes.refl.newline depth (.inr hw)).push op
      exact hop.trans (writeTokens_writes hq depth _ c.tokens)

theorem writeConditions_writes (o : LayoutOptions) {query : QueryWriter} (hq : query.InOrder)
    (depth : Nat) {w : Writer} (c : Clause) (hw : w.last.isSome = true) :
    Writes w c.body (writeConditions o query depth w c) := by
  unfold writeConditions
  split
  · have hall (cs : List Condition) {w : Writer} (hw : w.last.isSome = true) :
        Writes w (cs.flatMap Condition.parts)
          (cs.foldl (writeCondition query (depth + 1)) w) := by
      induction cs generalizing w with
      | nil => exact .refl
      | cons c cs ih =>
          have hc := writeCondition_writes hq (depth + 1) c hw
          exact hc.trans (ih (hc.last_isSome (.inr hw)))
    simpa [splitConditions_parts] using hall (splitConditions c.body) hw
  · exact writeTokens_writes hq (depth + 1) w c.body

theorem writeCommonTable_writes {query : QueryWriter} (hq : query.InOrder) (depth : Nat)
    (w : Writer) (item : ListItem) :
    Writes w item.parts (writeCommonTable query depth w item) :=
  (writeTokens_writes hq (depth + 1) w item.tokens).trans (Writes.all _ _)

theorem writeCommonTables_writes {query : QueryWriter} (hq : query.InOrder) (depth : Nat)
    {w : Writer} (c : Clause) (hw : w.last.isSome = true) :
    Writes w c.body (writeCommonTables query depth w c) := by
  have hall (items : List ListItem) {w : Writer} (hw : w.last.isSome = true) :
      Writes w (items.flatMap ListItem.parts)
        (items.foldl (fun w item => writeCommonTable query depth (w.newline depth) item) w) := by
    induction items generalizing w with
    | nil => exact .refl
    | cons item items ih =>
        have hitem := (Writes.refl.newline depth (.inr hw)).trans
          (writeCommonTable_writes hq depth _ item)
        exact hitem.trans (ih (hitem.last_isSome (.inr hw)))
  have hparts := splitList_parts c.body
  unfold writeCommonTables
  cases hs : splitList c.body with
  | nil => rw [hs] at hparts; rw [← hparts]; exact .refl
  | cons item items =>
      rw [hs] at hparts
      have hitem := writeCommonTable_writes hq depth w item
      rw [← hparts]
      exact hitem.trans (hall items (hitem.last_isSome (.inr hw)))

theorem writeClause_writes (o : LayoutOptions) {query : QueryWriter} (hq : query.InOrder)
    {depth : Nat} {w : Writer} {c : Clause} (hc : c.Headed)
    (hw : depth = 0 ∨ w.last.isSome = true) :
    Writes w c.tokens (writeClause o query depth w c) := by
  have hhead := (((Writes.refl.newline depth hw).continuation (depth + 1)).parenSpace
    (c.kind = .insertInto)).trans (Writes.all _ c.head)
  -- every kind that breaks lines of its own has a head, so its lines may begin at any level
  have hlast : c.kind ≠ .preamble →
      ((((w.newline depth).setContinuation (depth + 1)).setParenSpace
        (c.kind = .insertInto)).pushAll c.head).last.isSome = true := by
    intro hkind
    rcases hc with ⟨hpre, _⟩ | ⟨_, hne⟩
    · exact absurd hpre hkind
    · exact hhead.last_isSome (.inl (by simpa using hne))
  unfold writeClause
  dsimp only
  split
  next hlist =>
    exact hhead.trans (writeList_writes o hq depth c
      (hlast (by rintro h; simp [h, ClauseKind.isList] at hlist)))
  · split
    next hcond =>
      exact hhead.trans (writeConditions_writes o hq depth c
        (hlast (by rintro h; simp [h, ClauseKind.isCondition] at hcond)))
    · split
      next hwith =>
        exact hhead.trans (writeCommonTables_writes hq depth c (hlast (by simp [hwith])))
      · exact hhead.trans (writeTokens_writes hq (depth + 1) _ c.body)

theorem writeQuery_inOrder (o : LayoutOptions) (nesting : Nat) :
    (writeQuery o nesting).InOrder := by
  induction nesting with
  | zero => exact fun w ts _ _ => Writes.all w ts
  | succ nesting ih =>
      intro w ts depth hw
      have hall (cs : List Clause) (hcs : ∀ c ∈ cs, c.Headed) {w : Writer}
          (hw : depth = 0 ∨ w.last.isSome = true) :
          Writes w (cs.flatMap Clause.tokens)
            (cs.foldl (writeClause o (writeQuery o nesting) depth) w) := by
        induction cs generalizing w with
        | nil => exact .refl
        | cons c cs ihcs =>
            have hc := writeClause_writes o ih (hcs c (by simp)) hw
            refine hc.trans (ihcs (fun c hc => hcs c (by simp [hc])) ?_)
            exact hw.imp id fun h => hc.last_isSome (.inr h)
      have hclauses := hall (splitClauses ts) (splitClauses_headed ts) hw
      rwa [splitClauses_tokens] at hclauses

theorem writeStatements_writes (o : LayoutOptions) (statements : List (List Token)) :
    Writes {} statements.flatten (writeStatements o statements) := by
  have hall (statements : List (List Token)) (w : Writer) :
      Writes w statements.flatten
        (statements.foldl (fun w s => writeQuery o s.length w s 0) w) := by
    induction statements generalizing w with
    | nil => exact .refl
    | cons s ss ih => exact (writeQuery_inOrder o s.length w s 0 (.inl rfl)).trans (ih _)
  exact hall statements {}

def lineWriter (ts : List Token) : Writer :=
  (splitClauses ts).foldl (fun w c => (w.setParenSpace (c.kind = .insertInto)).pushAll c.tokens)
    { inline := true }

theorem lineWriter_writes (ts : List Token) : Writes { inline := true } ts (lineWriter ts) := by
  have hall (cs : List Clause) (w : Writer) :
      Writes w (cs.flatMap Clause.tokens)
        (cs.foldl (fun w c => (w.setParenSpace (c.kind = .insertInto)).pushAll c.tokens) w) := by
    induction cs generalizing w with
    | nil => exact .refl
    | cons c cs ih => exact ((Writes.refl.parenSpace _).trans (Writes.all _ c.tokens)).trans (ih _)
  have hclauses := hall (splitClauses ts) { inline := true }
  rwa [splitClauses_tokens] at hclauses

end EmbeddedSql.Layout
