import EmbeddedSql.Proofs.Clause.Likeness
import EmbeddedSql.Proofs.Layout.Nesting
import EmbeddedSql.Proofs.Layout.Placement

namespace EmbeddedSql.Layout

namespace Line

def look (case : KeywordCase) (l : Line) : Nat × Text × Nat := (l.depth, l.text case, l.width)

theorem width_push (l : Line) (p : Piece) : (l.push p).width = l.width + p.width := by
  have hadd (ps : List Piece) : (ps ++ [p]).foldr (fun p n => p.width + n) 0 =
      ps.foldr (fun p n => p.width + n) 0 + p.width := by
    induction ps with
    | nil => simp
    | cons q ps ih =>
        rw [List.cons_append, List.foldr_cons, List.foldr_cons, ih, Nat.add_assoc]
  exact hadd l.pieces

theorem isEmpty_eq_width (l : Line) : l.isEmpty = (l.width == 0) := by
  have hpiece (p : Piece) : p.isEmpty = (p.width == 0) := by
    cases p with
    | spaces n => rfl
    | token t =>
        rw [Bool.eq_iff_iff]
        simp [Piece.isEmpty, Piece.width]
  have hall (ps : List Piece) :
      ps.all Piece.isEmpty = (ps.foldr (fun p n => p.width + n) 0 == 0) := by
    induction ps with
    | nil => rfl
    | cons p ps ih =>
        rw [List.all_cons, List.foldr_cons, hpiece, ih, Bool.eq_iff_iff]
        simp
  exact hall l.pieces

variable {case : KeywordCase} {l l' : Line}

theorem isEmpty_congr (h : l'.look case = l.look case) : l'.isEmpty = l.isEmpty := by
  rw [isEmpty_eq_width, isEmpty_eq_width, show l'.width = l.width from congrArg (·.2.2) h]

theorem look_push (l : Line) (p : Piece) : (l.push p).look case =
    ((l.look case).1, (l.look case).2.1 ++ p.text case, (l.look case).2.2 + p.width) := by
  simp only [look, width_push, push_text, push_depth]

theorem push_congr (h : l'.look case = l.look case) {p p' : Piece}
    (htext : p'.text case = p.text case) (hwidth : p'.width = p.width) :
    (l'.push p').look case = (l.push p).look case := by
  rw [look_push, look_push, h, htext, hwidth]

end Line

structure Look (case : KeywordCase) (w w' : Writer) : Prop where
  inline : w'.inline = w.inline
  finished : w'.finished.map (Line.look case) = w.finished.map (Line.look case)
  current : w'.current.map (Line.look case) = w.current.map (Line.look case)
  last : Option.Rel LikeLast w.last w'.last
  lastUnary : w'.lastUnary = w.lastUnary
  pendingBreak : w'.pendingBreak = w.pendingBreak
  continuation : w'.continuation = w.continuation
  parenSpace : w'.parenSpace = w.parenSpace

theorem needsSpace_congr {previous previous' : Option Token} {t t' : Token}
    (h : Option.Rel LikeLast previous previous') (ht : LikeNext t t') (unary parenSpace : Bool) :
    needsSpace previous' unary parenSpace t' = needsSpace previous unary parenSpace t := by
  cases h with
  | none => rfl
  | some hlast => exact separated_congr hlast ht unary parenSpace

theorem allowsSign_congr {previous previous' : Option Token}
    (h : Option.Rel LikeLast previous previous') : allowsSign previous' = allowsSign previous := by
  cases h with
  | none => rfl
  | some hlast => exact hlast.allowsSign

namespace Look

variable {case : KeywordCase} {w w' : Writer}

theorem refl (w : Writer) (hlast : w.last = none) : Look case w w :=
  ⟨rfl, rfl, rfl, by rw [hlast]; exact .none, rfl, rfl, rfl, rfl⟩

theorem setContinuation (h : Look case w w') (depth : Nat) :
    Look case (w.setContinuation depth) (w'.setContinuation depth) :=
  { h with continuation := rfl }

theorem setParenSpace (h : Look case w w') (on : Bool) :
    Look case (w.setParenSpace on) (w'.setParenSpace on) :=
  { h with parenSpace := rfl }

theorem current_cases (h : Look case w w') :
    (w.current = none ∧ w'.current = none) ∨ ∃ l l', w.current = some l ∧ w'.current = some l' ∧
      l'.look case = l.look case := by
  have hcurrent := h.current
  cases hw : w.current with
  | none => simp_all
  | some l =>
      cases hw' : w'.current with
      | none => simp_all
      | some l' => simp_all

theorem line (h : Look case w w') :
    (w'.current.getD {}).look case = (w.current.getD {}).look case := by
  rcases h.current_cases with ⟨hw, hw'⟩ | ⟨l, l', hw, hw', hl⟩
  · rw [hw, hw']
  · rw [hw, hw']
    exact hl

theorem currentDepth (h : Look case w w') : w'.currentDepth = w.currentDepth := by
  rcases h.current_cases with ⟨hw, hw'⟩ | ⟨l, l', hw, hw', hl⟩
  · rw [Writer.currentDepth, Writer.currentDepth, hw, hw']
  · rw [Writer.currentDepth, Writer.currentDepth, hw, hw']
    exact congrArg Prod.fst hl

theorem newline (h : Look case w w') (depth : Nat) :
    Look case (w.newline depth) (w'.newline depth) := by
  cases hi : w.inline with
  | true =>
      rw [Writer.newline_inlined hi, Writer.newline_inlined (h.inline.trans hi)]
      exact h
  | false =>
      unfold Writer.newline
      rw [if_neg (by simp [hi]), if_neg (by simp [h.inline, hi])]
      rcases h.current_cases with ⟨hw, hw'⟩ | ⟨l, l', hw, hw', hl⟩
      · simp only [hw, hw']
        exact { h with pendingBreak := rfl, current := rfl }
      · simp only [hw, hw', Line.isEmpty_congr hl]
        split
        · have hrest : (l'.text case, l'.width) = (l.text case, l.width) := congrArg Prod.snd hl
          refine { h with pendingBreak := rfl, current := ?_ }
          exact congrArg (fun x => some (depth, x)) hrest
        · refine { h with pendingBreak := rfl, current := rfl, finished := ?_ }
          simp [h.finished, hl]

theorem settle (h : Look case w w') : Look case w.settle w'.settle := by
  unfold Writer.settle
  rw [h.pendingBreak, h.continuation]
  split
  · exact h.newline _
  · exact h

theorem padTo (h : Look case w w') (n : Nat) : Look case (w.padTo n) (w'.padTo n) := by
  unfold Writer.padTo
  rcases h.current_cases with ⟨hw, hw'⟩ | ⟨l, l', hw, hw', hl⟩
  · rw [hw, hw']
    exact h
  · rw [Writer.currentWidth_of_current hw, Writer.currentWidth_of_current hw', hw, hw']
    dsimp only
    rw [show l'.width = l.width from congrArg (·.2.2) hl]
    split
    · refine { h with current := ?_ }
      simpa using Line.push_congr hl rfl rfl
    · exact h

def spacedLine (w : Writer) (t : Token) : Line :=
  let line := w.current.getD {}
  if needsSpace w.last w.lastUnary w.parenSpace t && !line.isEmpty then line.push (.spaces 1)
  else line

theorem spacedLine_congr (h : Look case w w') {t q : Token} (ht : LikeNext t q) :
    (spacedLine w' q).look case = (spacedLine w t).look case := by
  unfold spacedLine
  dsimp only
  rw [h.lastUnary, h.parenSpace, needsSpace_congr h.last ht, Line.isEmpty_congr h.line]
  split
  · exact Line.push_congr h.line rfl rfl
  · exact h.line

theorem isUnary_congr (h : Look case w w') {t q : Token} (ht : isSign q = isSign t) :
    isUnary q w'.last = isUnary t w.last := by
  rw [isUnary_eq, isUnary_eq, ht, allowsSign_congr h.last]

theorem push (h : Look case w w') {t q : Token} (ht : Twin case t q) :
    Look case (w.push t) (w'.push q) := by
  have hs := h.settle
  refine { hs with
    current := congrArg some ?_
    last := .some ht.likeLast
    lastUnary := hs.isUnary_congr ht.isSign
    pendingBreak := ?_ }
  · exact Line.push_congr (hs.spacedLine_congr ht.likeNext) ht.cased ht.length
  · show (w'.settle.pendingBreak || _) = (w.settle.pendingBreak || _)
    rw [hs.pendingBreak, ht.isLineComment]

end Look

namespace Writer

@[simp] theorem settle_last (w : Writer) : w.settle.last = w.last := by
  unfold settle
  split <;> simp

theorem settle_settled (w : Writer) : w.settle.Settled := by
  unfold settle
  split
  · exact newline_settled w _
  next hp => exact .inr (by simpa using hp)

theorem settle_push (w : Writer) {t : Token} (ht : t.isLineComment = false) :
    (w.push t).settle = w.push t := by
  refine settle_of_settled ?_
  rcases w.settle_settled with hi | hp
  · exact .inl hi
  · exact .inr (by simp [push, hp, ht])

theorem push_joined (w : Writer) {p u q : Token} (h : Joined (allowsSign w.last) p u q) :
    (w.push p).push u = { w.push p with
      current := some (((Look.spacedLine w.settle p).push (.token p)).push (.token u))
      last := some u
      lastUnary := false } := by
  obtain ⟨hp, hu, -⟩ := h.plain
  have hspace :
      needsSpace (w.push p).last (w.push p).lastUnary (w.push p).parenSpace u = false := by
    have htouch := h.touches (w.push p).parenSpace
    rw [← isUnary_eq, ← settle_last] at htouch
    exact htouch
  have hunary : isUnary u (w.push p).last = false := by
    rw [isUnary_eq, h.isSign_second, Bool.false_and]
  rw [push, settle_push w hp.isLineComment]
  simp only [hspace, hunary, hu.isLineComment, Bool.false_and, Bool.or_false, Bool.false_eq_true,
    if_false]
  rfl

end Writer

namespace Look

variable {case : KeywordCase} {w w' : Writer}

theorem push_joined (h : Look case w w') {p u q : Token} (hj : Joined (allowsSign w.last) p u q) :
    Look case ((w.push p).push u) (w'.push q) := by
  obtain ⟨hp, hu, hq⟩ := hj.plain
  have hs := h.settle
  rw [Writer.push_joined w hj]
  refine { hs with
    current := congrArg some ?_
    last := .some hj.likeLast
    lastUnary := ?_
    pendingBreak := ?_ }
  · have htext : Piece.text case (.token q) =
        Piece.text case (.token p) ++ Piece.text case (.token u) := hj.casedText case
    have hwidth : Piece.width (.token q) = Piece.width (.token p) + Piece.width (.token u) := by
      simp only [Piece.width, hj.text, List.length_append]
    show ((spacedLine w'.settle q).push (.token q)).look case = _
    simp only [Line.look_push, hs.spacedLine_congr hj.likeNext, htext, hwidth, List.append_assoc,
      Nat.add_assoc]
  · show isUnary q w'.settle.last = false
    rw [isUnary_eq, hj.isSign_whole, Bool.false_and]
  · show (w'.settle.pendingBreak || _) = (w.settle.pendingBreak || _)
    rw [hs.pendingBreak, hp.isLineComment, hq.isLineComment]

theorem pushAll {ts qs : List Token} (h : Look case w w')
    (hts : Alike case (allowsSign w.last) ts qs) : Look case (w.pushAll ts) (w'.pushAll qs) := by
  generalize hb : allowsSign w.last = b at hts
  induction hts generalizing w w' with
  | nil => exact h
  | twin ht _ ih => exact ih (h.push ht) rfl
  | joined hj _ ih => exact ih (h.push_joined (hb ▸ hj)) rfl

theorem pushAll_twins {ts qs : List Token} (h : Look case w w')
    (hts : List.Forall₂ (Twin case) ts qs) : Look case (w.pushAll ts) (w'.pushAll qs) := by
  have halike := Alike.append_twins (b := allowsSign w.last) hts .nil
  rw [List.append_nil, List.append_nil] at halike
  exact h.pushAll halike

theorem lines (h : Look case w w') :
    w'.lines.map (Line.look case) = w.lines.map (Line.look case) := by
  have hfilter (ls : List Line) : (ls.filter fun l => !l.isEmpty).map (Line.look case) =
      (ls.map (Line.look case)).filter fun x => !(x.2.2 == 0) := by
    rw [List.filter_map]
    congr 2
    funext l
    rw [Line.isEmpty_eq_width]
    rfl
  have hcurrent :
      w'.current.toList.map (Line.look case) = w.current.toList.map (Line.look case) := by
    rw [← Option.toList_map, ← Option.toList_map, h.current]
  rw [Writer.lines, Writer.lines, hfilter, hfilter, List.map_append, List.map_append, h.finished,
    hcurrent]

theorem finish (o : LayoutOptions) (h : Look o.keywordCase w w') : w'.finish o = w.finish o := by
  have hlines := h.lines
  have hmany (ls : List Line) : ls.flatMap (fun l =>
        Text.spaces (l.depth * o.indentWidth) ++ l.text o.keywordCase ++ ['\n']) =
      (ls.map (Line.look o.keywordCase)).flatMap fun x =>
        Text.spaces (x.1 * o.indentWidth) ++ x.2.1 ++ ['\n'] := by
    rw [List.flatMap_map]
    rfl
  unfold Writer.finish
  generalize w.lines = ls at hlines ⊢
  generalize w'.lines = ls' at hlines ⊢
  match ls, ls', hlines with
  | [], [], _ => rfl
  | [l], [l'], hlines => exact congrArg (·.2.1) (List.head_eq_of_cons_eq hlines)
  | [l], l' :: k' :: ls', hlines => simp at hlines
  | l :: k :: ls, [l'], hlines => simp at hlines
  | l :: k :: ls, l' :: k' :: ls', hlines => exact (hmany _).trans (hlines ▸ (hmany _).symm)

end Look

section

variable (o : LayoutOptions) {b : Bool} {ts qs : List Token}

theorem inlineText_congr (h : Alike o.keywordCase b ts qs) : inlineText o qs = inlineText o ts :=
  ((Look.refl { inline := true } rfl).pushAll h.fresh).finish o

theorem tooWide_congr (h : Alike o.keywordCase b ts qs) (depth : Nat) :
    tooWide o depth qs = tooWide o depth ts := by
  rw [tooWide, tooWide, inlineText_congr o h]

end

variable {case : KeywordCase} {b : Bool} {ts qs : List Token} {w w' : Writer}

theorem Writes.allowsSign_last (h : Writes w ts w') :
    allowsSign w'.last = signAfter (allowsSign w.last) ts := by
  have hconcat (ts : List Token) (t : Token) (b : Bool) :
      signAfter b (ts ++ [t]) = allowsSign (some t) := by
    simp [signAfter]
  induction h with
  | refl => rfl
  | push t _ _ => rw [hconcat, Writer.push_last]
  | padded n t _ _ _ _ => rw [hconcat, Writer.push_last]
  | newline d _ _ ih => rw [Writer.newline_last, ih]
  | continuation d _ ih => exact ih
  | parenSpace on _ ih => exact ih

theorem Alike.needsBreak (h : Alike case b ts qs) : needsBreak qs = Layout.needsBreak ts := by
  rw [Layout.needsBreak, Layout.needsBreak, h.any_forcesBreak, h.containsSubquery]

theorem Alike.alignedAlias (h : Alike case b ts qs) (o : LayoutOptions) (kind : ClauseKind)
    (c d : Option Token) :
    AlikeAt case b ts qs (alignedAlias? o kind ⟨ts, c⟩) (alignedAlias? o kind ⟨qs, d⟩) := by
  have halias := h.alias 0
  unfold alignedAlias? aliasPosition?
  dsimp only
  generalize aliasFrom? 0 ts = m at halias ⊢
  generalize aliasFrom? 0 qs = n at halias ⊢
  cases halias with
  | none => exact .none
  | some htake hdrop =>
      rw [Option.filter_some, Option.filter_some, htake.needsBreak]
      split
      · exact .some htake hdrop
      · exact .none

theorem carriedComma_rel (h : Alike case b ts qs) (o : LayoutOptions) {c d : Option Token}
    (hcomma : Option.Rel (Twin case) c d) :
    Option.Rel (Twin case) (carriedComma o ⟨ts, c⟩) (carriedComma o ⟨qs, d⟩) := by
  unfold carriedComma ListItem.endsInLineComment
  dsimp only
  rw [h.getLast?_isLineComment]
  split
  · exact hcomma
  · split
    · exact hcomma
    · exact .none

theorem Look.pushAll_option {c d : Option Token} (h : Look case w w')
    (hc : Option.Rel (Twin case) c d) :
    Look case (w.pushAll c.toList) (w'.pushAll d.toList) := by
  cases hc with
  | none => exact h
  | some ht => exact h.push ht

structure AlikeRow (case : KeywordCase) (b : Bool) (row row' : Row) : Prop where
  leading : Option.Rel (Twin case) row.leading row'.leading
  tokens : Alike case b row.item.tokens row'.item.tokens
  comma : Option.Rel (Twin case) row.item.comma row'.item.comma
  aliasAt : AlikeAt case b row.item.tokens row'.item.tokens row.aliasAt row'.aliasAt

theorem AlikeRow.endsInLineComment {row row' : Row} (h : AlikeRow case b row row') :
    row'.item.endsInLineComment = row.item.endsInLineComment :=
  h.tokens.getLast?_isLineComment

theorem writeRow_last (o : LayoutOptions) (query : QueryWriter) (depth column : Nat) (w : Writer)
    {row : Row} {c : Token} (hcomma : row.item.comma = some c)
    (hcarried : carriedComma o row.item = none) :
    (writeRow o query depth column w row).last = some c := by
  have hends : (o.commaPosition = .trailing && !row.item.endsInLineComment) = true := by
    unfold carriedComma at hcarried
    cases hposition : o.commaPosition with
    | leading => simp [hposition, hcomma] at hcarried
    | trailing => simpa [hposition, hcomma] using hcarried
  rw [writeRow_eq, if_pos hends, hcomma]
  rfl

theorem aliasColumns_congr (o : LayoutOptions) (kind : ClauseKind) {is js : List ListItem}
    (hitems : AlikeItems o.keywordCase b is js) {c d : Option Token}
    (hlead : Option.Rel (Twin o.keywordCase) c d) (hb : ∀ t ∈ c, allowsSign (some t) = b) :
    (rowsAfter o kind d js).filterMap (Row.aliasColumn? o) =
      (rowsAfter o kind c is).filterMap (Row.aliasColumn? o) := by
  have hcolumn {b : Bool} {ts qs : List Token} {c d e f : Option Token}
      (hts : Alike o.keywordCase b ts qs) (hlead : Option.Rel (Twin o.keywordCase) c d)
      (hb : ∀ t ∈ c, allowsSign (some t) = b) :
      Row.aliasColumn? o ⟨d, ⟨qs, f⟩, alignedAlias? o kind ⟨qs, f⟩⟩ =
        Row.aliasColumn? o ⟨c, ⟨ts, e⟩, alignedAlias? o kind ⟨ts, e⟩⟩ := by
    have hcut := hts.alignedAlias o kind e f
    unfold Row.aliasColumn?
    dsimp only
    generalize alignedAlias? o kind ⟨ts, e⟩ = m at hcut ⊢
    generalize alignedAlias? o kind ⟨qs, f⟩ = n at hcut ⊢
    cases hcut with
    | none => rfl
    | @some m n htake _ =>
        have halike : Alike o.keywordCase b (c.toList ++ ts.take m) (d.toList ++ qs.take n) := by
          cases hlead with
          | none => exact htake
          | some ht => exact .twin ht (hb _ rfl ▸ htake)
        simp only [Option.map_some, inlineText_congr o halike]
  induction hitems generalizing c d with
  | last hts =>
      rw [rowsAfter_cons, rowsAfter_cons, List.filterMap_cons, List.filterMap_cons,
        hcolumn hts hlead hb]
      rfl
  | @cons b e f ts qs is js hts hcomma _ ih =>
      rw [rowsAfter_cons, rowsAfter_cons, List.filterMap_cons, List.filterMap_cons,
        hcolumn hts hlead hb, ih (carriedComma_rel hts o (.some hcomma)) fun t ht => ?_]
      obtain rfl : e = t := by simpa using carriedComma_mem ht
      rfl

theorem splitsList_congr (o : LayoutOptions) (depth : Nat) {c d : Clause}
    (h : AlikeClause o.keywordCase b c d) : splitsList o depth d = splitsList o depth c := by
  have hlength : (splitList d.body).length = (splitList c.body).length :=
    (h.body.items 0).length_eq
  rw [splitsList, splitsList, h.kind, hlength, h.body.needsBreak, tooWide_congr o h.tokens]

theorem splitsConditions_congr (o : LayoutOptions) (depth : Nat) {c d : Clause}
    (h : AlikeClause o.keywordCase b c d) :
    splitsConditions o depth d = splitsConditions o depth c := by
  have hlength : (splitConditions d.body).length = (splitConditions c.body).length :=
    (h.body.conditions {}).length_eq
  rw [splitsConditions, splitsConditions, hlength, h.body.needsBreak, inlineText_congr o h.body,
    tooWide_congr o h.tokens]

def QueryWriter.Steady (case : KeywordCase) (query : QueryWriter) : Prop :=
  ∀ {w w' ts qs} (depth : Nat), Look case w w' → Alike case (allowsSign w.last) ts qs →
    Look case (query w ts depth) (query w' qs depth)

section

variable {query : QueryWriter} (hq : query.Steady case)

include hq

theorem writeGroup_look (depth : Nat) (h : Look case w w') {t q : Token} (ht : Twin case t q)
    (hts : Alike case (allowsSign (some t)) ts qs) :
    Look case (writeGroup query depth w t ts) (writeGroup query depth w' q qs) := by
  have hpush := h.push ht
  have hquery := hq ((w.push t).currentDepth + 1) hpush hts.groupTokens
  unfold writeGroup
  dsimp only
  rw [hpush.currentDepth]
  exact (hquery.newline _).setContinuation depth

theorem writeRun_look (depth : Nat) (h : Look case w w')
    (hts : Alike case (allowsSign w.last) ts qs) :
    Look case (writeRun query depth w ts) (writeRun query depth w' qs) := by
  -- not by `run_induction`, since two tokens may stand against one
  induction hn : ts.length using Nat.strongRecOn generalizing w w' ts qs with
  | _ n ih =>
  generalize hb : allowsSign w.last = b at hts
  cases hts with
  | nil =>
      rw [writeRun, writeRun]
      exact h
  | @twin _ t q ts qs ht hts =>
      have hsame : opensQuery q qs = opensQuery t ts := by
        rw [opensQuery, opensQuery, ht.isPunct, hts.groupTokens.isSubquery]
      cases hopen : opensQuery t ts with
      | false =>
          rw [writeRun_token query depth w hopen, writeRun_token query depth w' (hsame.trans hopen)]
          exact ih ts.length (by simp [← hn]) (h.push ht) hts rfl
      | true =>
          have hgroup := writeGroup_look hq depth h ht hts
          have hdrop := (hts.group 1).2
          cases hd : ts.drop (groupLength 1 ts) with
          | nil =>
              rw [hd] at hdrop
              generalize hd' : qs.drop (groupLength 1 qs) = rest at hdrop
              cases hdrop
              rw [writeRun_open query depth w hopen hd,
                writeRun_open query depth w' (hsame.trans hopen) hd']
              exact hgroup
          | cons close rest =>
              have hlength := length_lt_of_drop hd
              rw [hd] at hdrop
              generalize hd' : qs.drop (groupLength 1 qs) = rest' at hdrop
              cases hdrop with
              | cons hclose hrest =>
                  rw [writeRun_group query depth w hopen hd,
                    writeRun_group query depth w' (hsame.trans hopen) hd']
                  have hshort : rest.length < n := by
                    rw [← hn, List.length_cons]
                    omega
                  exact ih rest.length hshort (hgroup.push hclose) hrest rfl
  | @joined _ p u q ts qs hj hts =>
      obtain ⟨hp, hu, hq⟩ := hj.plain
      rw [writeRun_token query depth w (by simp [opensQuery, hp.isPunct]),
        writeRun_token query depth (w.push p) (by simp [opensQuery, hu.isPunct]),
        writeRun_token query depth w' (by simp [opensQuery, hq.isPunct])]
      have hshort : ts.length < n := by
        simp only [← hn, List.length_cons]
        omega
      exact ih ts.length hshort (h.push_joined (hb ▸ hj)) hts rfl

theorem writeTokens_look (depth : Nat) (h : Look case w w')
    (hts : Alike case (allowsSign w.last) ts qs) :
    Look case (writeTokens query depth w ts) (writeTokens query depth w' qs) :=
  writeRun_look hq depth (h.setContinuation depth) hts

theorem writeItem_look (depth column : Nat) (h : Look case w w') {m n : Option Nat}
    (hts : Alike case (allowsSign w.last) ts qs)
    (hcut : AlikeAt case (allowsSign w.last) ts qs m n) :
    Look case (writeItem query depth column w ts m) (writeItem query depth column w' qs n) := by
  cases hcut with
  | none => exact writeTokens_look hq depth h hts
  | some htake hdrop =>
      have hbefore := writeTokens_look hq depth h htake
      exact writeTokens_look hq depth (hbefore.padTo column) (hdrop.alike _)

theorem writeRow_look (o : LayoutOptions) (depth column : Nat) (h : Look case w w') {row row' : Row}
    (hrow : AlikeRow case (allowsSign (row.leading.or w.last)) row row') :
    Look case (writeRow o query depth column w row) (writeRow o query depth column w' row') := by
  have hlead := (h.newline depth).pushAll_option hrow.leading
  have hlast : allowsSign (row.leading.or w.last) =
      allowsSign ((w.newline depth).pushAll row.leading.toList).last := by
    cases row.leading with
    | none => exact congrArg allowsSign (Writer.newline_last w depth).symm
    | some c => rfl
  have hitem := writeItem_look hq depth column hlead (hlast ▸ hrow.tokens) (hlast ▸ hrow.aliasAt)
  rw [writeRow_eq, writeRow_eq, hrow.endsInLineComment]
  split
  · exact hitem.pushAll_option hrow.comma
  · exact hitem

theorem rowsAfter_look (o : LayoutOptions) (kind : ClauseKind) (depth column : Nat)
    {is js : List ListItem} (hitems : AlikeItems case b is js) {c d : Option Token}
    (hlead : Option.Rel (Twin case) c d) (hb : allowsSign (c.or w.last) = b) (h : Look case w w') :
    Look case ((rowsAfter o kind c is).foldl (writeRow o query depth column) w)
      ((rowsAfter o kind d js).foldl (writeRow o query depth column) w') := by
  induction hitems generalizing w w' c d with
  | last hts =>
      have hrow : AlikeRow case _ ⟨c, ⟨_, none⟩, alignedAlias? o kind ⟨_, none⟩⟩
          ⟨d, ⟨_, none⟩, alignedAlias? o kind ⟨_, none⟩⟩ :=
        ⟨hlead, hts, .none, hts.alignedAlias o kind none none⟩
      exact writeRow_look hq o depth column h (hb ▸ hrow)
  | @cons b e f ts qs is js hts hcomma _ ih =>
      have hrow : AlikeRow case b ⟨c, ⟨ts, some e⟩, alignedAlias? o kind ⟨ts, some e⟩⟩
          ⟨d, ⟨qs, some f⟩, alignedAlias? o kind ⟨qs, some f⟩⟩ :=
        ⟨hlead, hts, .some hcomma, hts.alignedAlias o kind _ _⟩
      rw [rowsAfter_cons, rowsAfter_cons, List.foldl_cons, List.foldl_cons]
      refine ih (carriedComma_rel hts o (.some hcomma)) ?_
        (writeRow_look hq o depth column h (hb ▸ hrow))
      cases hcarried : carriedComma o ⟨ts, some e⟩ with
      | none => rw [Option.none_or, writeRow_last o query depth column w rfl hcarried]
      | some g =>
          obtain rfl : e = g := by simpa using carriedComma_mem hcarried
          rfl

end

section

variable {o : LayoutOptions} {query : QueryWriter} (hq : query.Steady o.keywordCase)
  {depth : Nat} {c d : Clause}

include hq

theorem writeList_look (h : Look o.keywordCase w w') (hc : AlikeClause o.keywordCase b c d)
    (hb : allowsSign w.last = signAfter b c.head) :
    Look o.keywordCase (writeList o query depth w c) (writeList o query depth w' d) := by
  have hitems := hc.body.items 0
  have hcolumns : (rows o c.kind (splitList d.body)).filterMap (Row.aliasColumn? o) =
      (rows o c.kind (splitList c.body)).filterMap (Row.aliasColumn? o) :=
    aliasColumns_congr o c.kind hitems .none (by simp)
  unfold writeList
  rw [splitsList_congr o depth hc, hc.kind]
  split
  · dsimp only
    rw [hcolumns]
    exact rowsAfter_look hq o c.kind _ _ hitems .none hb h
  · exact writeTokens_look hq _ h (hb ▸ hc.body)

theorem writeConditions_look (h : Look o.keywordCase w w') (hc : AlikeClause o.keywordCase b c d)
    (hb : allowsSign w.last = signAfter b c.head) :
    Look o.keywordCase (writeConditions o query depth w c)
      (writeConditions o query depth w' d) := by
  have hlinks {cs ds : List Condition} (hlinks : List.Forall₂ (AlikeLink o.keywordCase) cs ds)
      {w w' : Writer} (h : Look o.keywordCase w w') :
      Look o.keywordCase (cs.foldl (writeCondition query (depth + 1)) w)
        (ds.foldl (writeCondition query (depth + 1)) w') := by
    induction hlinks generalizing w w' with
    | nil => exact h
    | cons hlink _ ih =>
        obtain ⟨op, op', hop, hop', ht, htokens⟩ := hlink
        refine ih ?_
        simp only [writeCondition, hop, hop']
        exact writeTokens_look hq _ ((h.newline _).push ht) htokens
  have hchain := hc.body.conditions {}
  unfold writeConditions
  rw [splitsConditions_congr o depth hc]
  split
  · unfold splitConditions
    generalize conditionsFrom {} c.body = cs at hchain ⊢
    generalize conditionsFrom {} d.body = ds at hchain ⊢
    obtain ⟨htokens, hrest⟩ := hchain
    exact hlinks hrest (writeTokens_look hq _ h (hb ▸ htokens))
  · exact writeTokens_look hq _ h (hb ▸ hc.body)

theorem writeCommonTables_look (h : Look o.keywordCase w w')
    (hbody : Alike o.keywordCase (allowsSign w.last) c.body d.body) :
    Look o.keywordCase (writeCommonTables query depth w c)
      (writeCommonTables query depth w' d) := by
  have hmore {b : Bool} {is js : List ListItem} (hitems : AlikeItems o.keywordCase b is js)
      {w w' : Writer} (h : Look o.keywordCase w w') (hb : allowsSign w.last = b) :
      Look o.keywordCase
        (is.foldl (fun w item => writeCommonTable query depth (w.newline depth) item) w)
        (js.foldl (fun w item => writeCommonTable query depth (w.newline depth) item) w') := by
    induction hitems generalizing w w' with
    | last hts =>
        refine writeTokens_look hq _ (h.newline depth) ?_
        rwa [Writer.newline_last, hb]
    | cons hts hcomma _ ih =>
        refine ih ((writeTokens_look hq _ (h.newline depth) ?_).push hcomma) rfl
        rwa [Writer.newline_last, hb]
  have hitems := hbody.items 0
  unfold writeCommonTables splitList
  generalize itemsFrom 0 c.body = is at hitems ⊢
  generalize itemsFrom 0 d.body = js at hitems ⊢
  cases hitems with
  | last hts => exact writeTokens_look hq _ h hts
  | cons hts hcomma hrest => exact hmore hrest ((writeTokens_look hq _ h hts).push hcomma) rfl

theorem writeClause_look (h : Look o.keywordCase w w')
    (hc : AlikeClause o.keywordCase (allowsSign w.last) c d) :
    Look o.keywordCase (writeClause o query depth w c) (writeClause o query depth w' d) := by
  have hhead := (((h.newline depth).setContinuation (depth + 1)).setParenSpace
    (c.kind = .insertInto)).pushAll_twins hc.head
  have hlast : allowsSign ((((w.newline depth).setContinuation (depth + 1)).setParenSpace
      (c.kind = .insertInto)).pushAll c.head).last = signAfter (allowsSign w.last) c.head := by
    rw [(Writes.all _ c.head).allowsSign_last]
    exact congrArg (signAfter · c.head) (congrArg allowsSign (Writer.newline_last w depth))
  unfold writeClause
  dsimp only
  rw [hc.kind]
  split
  · exact writeList_look hq hhead hc hlast
  · split
    · exact writeConditions_look hq hhead hc hlast
    · split
      · exact writeCommonTables_look hq hhead (hlast ▸ hc.body)
      · exact writeTokens_look hq _ hhead (hlast ▸ hc.body)

end

theorem AlikeClauses.foldl_look {step : Writer → Clause → Writer}
    (hstep : ∀ {w w' c d}, Look case w w' → AlikeClause case (allowsSign w.last) c d →
      Look case (step w c) (step w' d))
    {cs ds : List Clause} (h : Look case w w')
    (hclauses : AlikeClauses case (allowsSign w.last) cs ds) :
    Look case (cs.foldl step w) (ds.foldl step w') := by
  have hmore {cs ds : List Clause}
      (hcs : List.Forall₂ (fun c d => ∀ b, AlikeClause case b c d) cs ds)
      {w w' : Writer} (h : Look case w w') :
      Look case (cs.foldl step w) (ds.foldl step w') := by
    induction hcs generalizing w w' with
    | nil => exact h
    | cons hc _ ih => exact ih (hstep h (hc _))
  cases hclauses with
  | nil => exact h
  | cons hc hcs => exact hmore hcs (hstep h hc)

theorem writeQuery_steady (o : LayoutOptions) (nesting : Nat) :
    (writeQuery o nesting).Steady o.keywordCase := by
  induction nesting with
  | zero => exact fun _ h hts => h.pushAll hts
  | succ nesting ih =>
      intro w w' ts qs depth h hts
      rw [writeQuery, writeQuery]
      exact AlikeClauses.foldl_look (writeClause_look ih) h hts.clauses

theorem lineText_congr (o : LayoutOptions) (h : Alike o.keywordCase b ts qs) :
    lineText o qs = lineText o ts := by
  refine Look.finish o (AlikeClauses.foldl_look (fun h hc => ?_) (.refl _ rfl) h.fresh.clauses)
  simp only [hc.kind]
  exact (h.setParenSpace _).pushAll hc.tokens

theorem singleLine?_congr (o : LayoutOptions) (h : Alike o.keywordCase b ts qs) :
    singleLine? o qs = singleLine? o ts := by
  rw [singleLine?, singleLine?, h.any_forcesBreak, lineText_congr o h]

theorem writeStatements_look (o : LayoutOptions) {ss ss' : List (List Token)}
    (h : AlikeStatements o.keywordCase true ss ss') :
    Look o.keywordCase (writeStatements o ss) (writeStatements o ss') := by
  have hall {b : Bool} {ss ss' : List (List Token)} (h : AlikeStatements o.keywordCase b ss ss')
      {w w' : Writer} (hw : Look o.keywordCase w w') (hb : allowsSign w.last = b) :
      Look o.keywordCase (ss.foldl (fun w s => writeQuery o s.length w s 0) w)
        (ss'.foldl (fun w s => writeQuery o s.length w s 0) w') := by
    induction h generalizing w w' with
    | nil => exact hw
    | @cons b s s' ss ss' hs _ ih =>
        have hquery := writeQuery_steady o s.length 0 hw (hb ▸ hs)
        rw [writeQuery_enough o hs.length_le] at hquery
        have hwrites := writeQuery_inOrder o s.length w s 0 (.inl rfl)
        exact ih hquery (hb ▸ hwrites.allowsSign_last)
  exact hall h (.refl {} rfl) rfl

theorem format_congr (o : LayoutOptions)
    (h : Alike o.keywordCase true (ts.filter Token.isSignificant)
      (qs.filter Token.isSignificant)) : format o qs = format o ts := by
  have hstatements := h.statements 0
  unfold format splitStatements
  dsimp only
  generalize statementsFrom 0 (ts.filter Token.isSignificant) = ss at hstatements ⊢
  generalize statementsFrom 0 (qs.filter Token.isSignificant) = ss' at hstatements ⊢
  have hblock := (writeStatements_look o hstatements).finish o
  rw [hblock]
  match ss, ss', hstatements with
  | [], [], _ => rfl
  | [s], [s'], .cons hs _ =>
      dsimp only
      rw [singleLine?_congr o hs]
  | _ :: _ :: _, _ :: _ :: _, _ => rfl

end EmbeddedSql.Layout
