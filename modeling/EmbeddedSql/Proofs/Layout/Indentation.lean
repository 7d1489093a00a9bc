import EmbeddedSql.Proofs.Clause.Grouping
import EmbeddedSql.Proofs.Layout.Nesting
import EmbeddedSql.Proofs.Layout.Standing

namespace EmbeddedSql.Layout

/-- Tokens of which each query in parentheses stands as `Query` says, one level below the line of
its opening parenthesis. -/
inductive Laid (Query : Nat → List Token → List Spot → Prop) : List Token → List Spot → Prop
  | nil : Laid Query [] []
  | hidden {t r ss} : t.text.isEmpty = true → Laid Query r ss → Laid Query (t :: r) ss
  | token (s : Spot) {r ss} : opensQuery s.token r = false → Laid Query r ss →
      Laid Query (s.token :: r) (s :: ss)
  | unclosed (s : Spot) {r inner} : opensQuery s.token r = true → r.drop (groupLength 1 r) = [] →
      Query (s.depth + 1) (groupTokens r) inner → Laid Query (s.token :: r) (s :: inner)
  | closed (s close : Spot) {r inner rest ss} : opensQuery s.token r = true →
      r.drop (groupLength 1 r) = close.token :: rest →
      Query (s.depth + 1) (groupTokens r) inner →
      close.leads = true → close.depth = s.depth → Laid Query rest ss →
      Laid Query (s.token :: r) (s :: (inner ++ close :: ss))

def BeginAt (depth : Nat) (ss : List Spot) : Prop :=
  ∀ s ∈ ss.head?, s.leads = true ∧ s.depth = depth

/-- Clauses each of which begins a line at level `depth` and has no token on a line above it, and
likewise the clauses of every query in parentheses among them. -/
inductive LaidClauses : Nat → List Clause → List Spot → Prop
  | nil {depth} : LaidClauses depth [] []
  | cons {depth c cs ss ss'} :
      Laid (fun level ts inner => LaidClauses level (splitClauses ts) inner) c.tokens ss →
      BeginAt depth ss → (∀ s ∈ ss, depth ≤ s.depth) → LaidClauses depth cs ss' →
      LaidClauses depth (c :: cs) (ss ++ ss')

def LaidQuery (depth : Nat) (ts : List Token) (ss : List Spot) : Prop :=
  LaidClauses depth (splitClauses ts) ss

section

variable {Query : Nat → List Token → List Spot → Prop}

theorem opensQuery_append {t : Token} {r : List Token} (h : ClosesGroups (t :: r))
    (us : List Token) : opensQuery t (r ++ us) = opensQuery t r := by
  cases hparen : t.isPunct '(' with
  | false => simp [opensQuery, hparen]
  | true => rw [opensQuery, opensQuery, (h.group_append hparen us).1]

theorem isPunct_of_opensQuery {t : Token} {r : List Token} (h : opensQuery t r = true) :
    t.isPunct '(' = true :=
  (Bool.and_eq_true_iff.1 h).1

theorem isEmpty_of_isPunct {t : Token} {c : Char} (h : t.isPunct c = true) :
    t.text.isEmpty = false := by
  simp_all [Token.isPunct]

theorem isEmpty_of_groupLength {n : Nat} {r rest : List Token} {close : Token}
    (h : r.drop (groupLength n r) = close :: rest) : close.text.isEmpty = false := by
  rcases Bool.or_eq_true_iff.1 (isClosing_of_groupLength h) with h | h
  · exact isEmpty_of_isPunct h
  · exact isEmpty_of_isPunct h

theorem Laid.append {ts us : List Token} {ss ss' : List Spot} (h : Laid Query ts ss)
    (hts : ClosesGroups ts) (h' : Laid Query us ss') : Laid Query (ts ++ us) (ss ++ ss') := by
  induction h with
  | nil => exact h'
  | hidden ht _ ih => exact .hidden ht (ih (hts.drop 1))
  | token s hopen _ ih =>
      exact .token s ((opensQuery_append hts us).trans hopen) (ih (hts.drop 1))
  | unclosed s hopen hdrop _ =>
      have hclosed := hts [] _ _ rfl (isPunct_of_opensQuery hopen)
      have hlength := List.drop_eq_nil_iff.1 hdrop
      omega
  | @closed s close r inner rest ss hopen hdrop hquery hleads hdepth _ ih =>
      obtain ⟨hgroup, hrest⟩ := hts.group_append (isPunct_of_opensQuery hopen) us
      rw [hdrop, List.cons_append] at hrest
      have hafter : ClosesGroups rest := by
        have hclose := hts.drop (groupLength 1 r + 1)
        rw [List.drop_succ_cons, hdrop] at hclose
        exact hclose.drop 1
      rw [List.cons_append, List.cons_append, List.append_assoc, List.cons_append]
      refine .closed s close ?_ hrest ?_ hleads hdepth (ih hafter)
      · rw [opensQuery_append hts, hopen]
      · rw [hgroup]
        exact hquery

structure Lays (Query : Nat → List Token → List Spot → Prop) (depth : Nat) (w : Writer)
    (ts : List Token) (ss : List Spot) (w' : Writer) : Prop where
  laid : Laid Query ts ss
  spots : w'.spots = w.spots ++ ss
  above : ∀ s ∈ ss, depth ≤ s.depth
  within : w'.Within depth

namespace Lays

variable {depth : Nat} {w w' w'' : Writer} {ts us : List Token} {ss ss' : List Spot}

theorem refl (h : w.Within depth) : Lays Query depth w [] [] w :=
  ⟨.nil, by simp, by simp, h⟩

theorem trans (h : Lays Query depth w ts ss w') (hts : ClosesGroups ts)
    (h' : Lays Query depth w' us ss' w'') : Lays Query depth w (ts ++ us) (ss ++ ss') w'' where
  laid := h.laid.append hts h'.laid
  spots := by rw [h'.spots, h.spots, List.append_assoc]
  above := List.forall_mem_append.2 ⟨h.above, h'.above⟩
  within := h'.within

theorem of_spots (hspots : w'.spots = w.spots) (h : Lays Query depth w' ts ss w'') :
    Lays Query depth w ts ss w'' :=
  ⟨h.laid, by rw [h.spots, hspots], h.above, h.within⟩

theorem hidden {t : Token} (ht : t.text.isEmpty = true)
    (h : Lays Query depth (w.push t) ts ss w') : Lays Query depth w (t :: ts) ss w' where
  laid := .hidden ht h.laid
  spots := by rw [h.spots, Writer.spots_push, if_pos ht, List.append_nil]
  above := h.above
  within := h.within

theorem push {t : Token} (hw : w.Within depth) (ht : t.text.isEmpty = false)
    (hopen : opensQuery t ts = false) (h : Lays Query depth (w.push t) ts ss w') :
    Lays Query depth w (t :: ts) (w.place t :: ss) w' where
  laid := .token (w.place t) hopen h.laid
  spots := by rw [h.spots, Writer.spots_push, ht, List.append_assoc]; rfl
  above := List.forall_mem_cons.2 ⟨hw.settle, h.above⟩
  within := h.within

end Lays

theorem BeginAt.place {margin : Nat} {w : Writer} (h : w.AtMargin margin) (t : Token)
    (ss : List Spot) : BeginAt margin (w.place t :: ss) := by
  intro s hs
  obtain rfl : w.place t = s := by simpa using hs
  rw [h.place]
  exact ⟨rfl, rfl⟩

theorem pushAll_lays (Query : Nat → List Token → List Spot → Prop) {depth : Nat} {w : Writer}
    {ts : List Token} (hw : w.Within depth) (hts : ∀ t ∈ ts, t.isPunct '(' = false) :
    ∃ ss, Lays Query depth w ts ss (w.pushAll ts) := by
  induction ts generalizing w with
  | nil => exact ⟨_, .refl hw⟩
  | cons t r ih =>
      obtain ⟨ht, hr⟩ := List.forall_mem_cons.1 hts
      obtain ⟨ss, hss⟩ := ih (hw.push t) hr
      cases htext : t.text.isEmpty with
      | true => exact ⟨_, .hidden htext hss⟩
      | false => exact ⟨_, .push hw htext (by rw [opensQuery, ht, Bool.false_and]) hss⟩

def QueryWriter.LaysUpTo (n : Nat) (query : QueryWriter) : Prop :=
  ∀ w ts level depth, ts.length ≤ n → depth ≤ level → Writer.Within depth w →
    ∃ ss, LaidQuery level ts ss ∧ (query w ts level).spots = w.spots ++ ss ∧
      (∀ s ∈ ss, level ≤ s.depth) ∧ (query w ts level).Within depth

end

section

variable {n : Nat} {query : QueryWriter} (hq : query.LaysUpTo n)

include hq

theorem writeGroup_lays {depth level : Nat} {w : Writer} {t : Token} {r : List Token}
    (hw : w.Within depth) (hle : depth ≤ level) (ht : t.text.isEmpty = false)
    (hr : r.length ≤ n) :
    ∃ inner, LaidQuery ((w.place t).depth + 1) (groupTokens r) inner ∧
      (writeGroup query level w t r).spots = w.spots ++ w.place t :: inner ∧
      (∀ s ∈ w.place t :: inner, depth ≤ s.depth) ∧
      (writeGroup query level w t r).Within depth ∧
      (writeGroup query level w t r).AtMargin (w.place t).depth := by
  have hpush := hw.push t
  have hlevel : (w.push t).currentDepth = (w.place t).depth := Writer.currentDepth_push w t
  have hlength : (groupTokens r).length ≤ n := by
    simp only [groupTokens, List.length_take]
    omega
  have hplace : depth ≤ (w.place t).depth := hw.settle
  obtain ⟨inner, hlaid, hspots, habove, hwithin⟩ :=
    hq (w.push t) (groupTokens r) ((w.place t).depth + 1) depth hlength (by omega) hpush
  refine ⟨inner, hlaid, ?_, ?_, ?_, ?_⟩
  · rw [writeGroup, hlevel]
    show Writer.spots (Writer.newline _ _) = _
    rw [Writer.spots_newline, hspots, Writer.spots_push, ht]
    simp
  · exact List.forall_mem_cons.2 ⟨hplace, fun s hs => by have := habove s hs; omega⟩
  · rw [writeGroup, hlevel]
    exact (hwithin.newline hplace).setContinuation hle
  · rw [writeGroup, hlevel]
    exact (Writer.AtMargin.of_newline hwithin.inline _).setContinuation level

theorem writeRun_lays {depth level : Nat} {w : Writer} {ts : List Token}
    (hw : w.Within depth) (hle : depth ≤ level) (hts : ts.length ≤ n + 1) :
    ∃ ss, Lays LaidQuery depth w ts ss (writeRun query level w ts) ∧
      ∀ margin, w.AtMargin margin → BeginAt margin ss := by
  induction ts using run_induction generalizing w with
  | nil => rw [writeRun]; exact ⟨_, .refl hw, by simp [BeginAt]⟩
  | token t r hopen ih =>
      rw [List.length_cons] at hts
      rw [writeRun_token query level w hopen]
      obtain ⟨ss, hss, hbegin⟩ := ih (hw.push t) (by omega)
      cases ht : t.text.isEmpty with
      | true => exact ⟨ss, .hidden ht hss, fun margin hm => hbegin margin (hm.push ht)⟩
      | false => exact ⟨_, .push hw ht hopen hss, fun _ hm => .place hm t ss⟩
  | unclosed t r hopen hdrop =>
      rw [List.length_cons] at hts
      have ht := isEmpty_of_isPunct (isPunct_of_opensQuery hopen)
      obtain ⟨inner, hlaid, hspots, habove, hwithin, -⟩ :=
        writeGroup_lays hq hw hle ht (by omega : r.length ≤ n)
      rw [writeRun_open query level w hopen hdrop]
      exact ⟨_, ⟨.unclosed (w.place t) hopen hdrop hlaid, hspots, habove, hwithin⟩,
        fun _ hm => .place hm t inner⟩
  | group t r close rest hopen hdrop ih =>
      rw [List.length_cons] at hts
      have hrest := length_lt_of_drop hdrop
      have ht := isEmpty_of_isPunct (isPunct_of_opensQuery hopen)
      obtain ⟨inner, hlaid, hspots, habove, hwithin, hmargin⟩ :=
        writeGroup_lays hq hw hle ht (by omega : r.length ≤ n)
      rw [writeRun_group query level w hopen hdrop]
      obtain ⟨ss, hss, -⟩ := ih (hwithin.push close) (by omega)
      have hplace := hmargin.place close
      refine ⟨_, ⟨.closed (w.place t) (Writer.place _ close) hopen hdrop hlaid
        (by rw [hplace]) (by rw [hplace]) hss.laid, ?_, ?_, hss.within⟩,
        fun _ hm => .place hm t _⟩
      · rw [hss.spots, Writer.spots_push, hspots, isEmpty_of_groupLength hdrop]
        simp
      · rw [← List.cons_append]
        exact List.forall_mem_append.2
          ⟨habove, List.forall_mem_cons.2 ⟨hwithin.settle, hss.above⟩⟩

theorem writeTokens_lays {depth level : Nat} {w : Writer} {ts : List Token}
    (hw : w.Within depth) (hle : depth ≤ level) (hts : ts.length ≤ n + 1) :
    ∃ ss, Lays LaidQuery depth w ts ss (writeTokens query level w ts) ∧
      ∀ margin, w.AtMargin margin → BeginAt margin ss := by
  obtain ⟨ss, hss, hbegin⟩ := writeRun_lays hq (hw.setContinuation hle) hle hts
  have hspots : (w.setContinuation level).spots = w.spots := rfl
  exact ⟨ss, hss.of_spots hspots, fun margin hm => hbegin margin (hm.setContinuation level)⟩

end

theorem foldl_lays {α : Type} {Query : Nat → List Token → List Spot → Prop} {depth : Nat}
    {f : Writer → α → Writer} {parts : α → List Token} {xs : List α}
    (hstep : ∀ x ∈ xs, ∀ w, Writer.Within depth w → ∃ ss, Lays Query depth w (parts x) ss (f w x))
    (hclose : ∀ x ∈ xs.dropLast, ClosesGroups (parts x)) {w : Writer} (hw : w.Within depth) :
    ∃ ss, Lays Query depth w (xs.flatMap parts) ss (xs.foldl f w) := by
  induction xs generalizing w with
  | nil => exact ⟨_, .refl hw⟩
  | cons x xs ih =>
      obtain ⟨hx, hxs⟩ := List.forall_mem_cons.1 hstep
      obtain ⟨ss, hss⟩ := hx w hw
      cases xs with
      | nil => exact ⟨ss, by simpa using hss⟩
      | cons y ys =>
          rw [List.dropLast_cons_cons, List.forall_mem_cons] at hclose
          obtain ⟨ss', hss'⟩ := ih hxs hclose.2 hss.within
          exact ⟨_, hss.trans hclose.1 hss'⟩

theorem rowsAfter_written (o : LayoutOptions) (kind : ClauseKind) (leading : Option Token)
    (items : List ListItem) (last : List Token) :
    (rowsAfter o kind leading (items ++ [⟨last, none⟩])).flatMap (Row.written o) =
      leading.toList ++ (items ++ [ListItem.mk last none]).flatMap ListItem.parts := by
  induction items generalizing leading with
  | nil => simp [rowsAfter, Row.written, ListItem.parts]
  | cons item items ih =>
      rw [List.cons_append, rowsAfter_cons, List.flatMap_cons, ih, ← List.append_assoc,
        written_carriedComma, List.append_assoc, List.flatMap_cons]

theorem rows_written (o : LayoutOptions) (kind : ClauseKind) (ts : List Token) :
    (rows o kind (splitList ts)).flatMap (Row.written o) = ts := by
  obtain ⟨init, last, hlast⟩ := itemsFrom_last 0 ts
  have hrows := rowsAfter_written o kind none init last
  rw [← hlast, itemsFrom_parts] at hrows
  exact hrows

theorem map_item_rows (o : LayoutOptions) (kind : ClauseKind) (items : List ListItem) :
    (rows o kind items).map Row.item = items := by
  rw [rows, List.map_map]
  exact List.map_fst_zip (by simp)

theorem mem_rows {o : LayoutOptions} {kind : ClauseKind} {items : List ListItem} {row : Row}
    (h : row ∈ rows o kind items) : row.item ∈ items ∧
      (∀ t ∈ row.leading, ∃ item ∈ items, t ∈ item.comma) ∧
      row.aliasAt = alignedAlias? o kind row.item := by
  obtain ⟨⟨item, leading⟩, hzip, rfl⟩ := List.mem_map.1 h
  obtain ⟨hitem, hleading⟩ := List.of_mem_zip hzip
  refine ⟨hitem, fun t ht => ?_, rfl⟩
  rcases List.mem_cons.1 hleading with rfl | hcarried
  · simp at ht
  · obtain ⟨source, hsource, rfl⟩ := List.mem_map.1 hcarried
    exact ⟨source, hsource, carriedComma_mem ht⟩

theorem splitList_comma {ts : List Token} {item : ListItem} (h : item ∈ splitList ts) {t : Token}
    (ht : t ∈ item.comma) : t.isPunct ',' = true ∧ ClosesGroups item.tokens := by
  refine ⟨itemsFrom_comma 0 ts item h t ht, splitList_closesGroups ts item ?_⟩
  obtain ⟨init, last, hlast⟩ : ∃ init last, splitList ts = init ++ [⟨last, none⟩] :=
    itemsFrom_last 0 ts
  rw [hlast, List.dropLast_concat]
  rw [hlast] at h
  rcases List.mem_append.1 h with h | h
  · exact h
  · obtain rfl := List.mem_singleton.1 h
    simp at ht

theorem aliasPosition?_closesGroups {ts : List Token} {k : Nat} (h : aliasPosition? ts = some k) :
    ClosesGroups (ts.take k) :=
  .of_depth (aliasFrom?_depth h)

theorem alignedAlias?_closesGroups {o : LayoutOptions} {kind : ClauseKind} {item : ListItem}
    {k : Nat} (h : k ∈ alignedAlias? o kind item) : ClosesGroups (item.tokens.take k) :=
  aliasPosition?_closesGroups (Option.filter_eq_some_iff.1 h).1

theorem isPunct_of_isComma {t : Token} (h : t.isPunct ',' = true) : t.isPunct '(' = false := by
  simp_all [Token.isPunct]

theorem parts_closesGroups (ts : List Token) :
    ∀ item ∈ (splitList ts).dropLast, ClosesGroups item.parts := by
  intro item hitem
  refine (splitList_closesGroups ts item hitem).append (.of_forall fun t ht => ?_)
  exact isPunct_of_isComma (splitList_comma (List.dropLast_subset _ hitem) (by simpa using ht)).1

theorem comma_lays {Query : Nat → List Token → List Spot → Prop} {depth : Nat} {w w' : Writer}
    {ts : List Token} {ss : List Spot} {comma : Option Token} (h : Lays Query depth w ts ss w')
    (hcomma : ∀ t ∈ comma, t.isPunct ',' = true ∧ ClosesGroups ts) :
    ∃ ss', Lays Query depth w (ts ++ comma.toList) ss' (w'.pushAll comma.toList) := by
  cases comma with
  | none =>
      rw [Option.toList_none, List.append_nil]
      exact ⟨ss, h⟩
  | some t =>
      obtain ⟨hpunct, hclosed⟩ := hcomma t rfl
      have hquiet : ∀ u ∈ [t], u.isPunct '(' = false := by
        simpa using isPunct_of_isComma hpunct
      obtain ⟨ss', hss'⟩ := pushAll_lays Query h.within hquiet
      exact ⟨_, h.trans hclosed hss'⟩

theorem rows_closesGroups (o : LayoutOptions) (kind : ClauseKind) (ts : List Token) :
    ∀ row ∈ (rows o kind (splitList ts)).dropLast, ClosesGroups (row.written o) := by
  intro row hrow
  obtain ⟨hitem, hlead, -⟩ := mem_rows (List.dropLast_subset _ hrow)
  have hclosed : ClosesGroups row.item.tokens := by
    refine splitList_closesGroups ts row.item ?_
    rw [← map_item_rows o kind (splitList ts), ← List.map_dropLast]
    exact List.mem_map_of_mem hrow
  have hcomma (t : Token) (ht : t ∈ row.item.comma.toList) : t.isPunct '(' = false :=
    isPunct_of_isComma (splitList_comma hitem (by simpa using ht)).1
  have hfirst (t : Token) (ht : t ∈ row.leading.toList) : t.isPunct '(' = false := by
    obtain ⟨source, hsource, ht'⟩ := hlead t (by simpa using ht)
    exact isPunct_of_isComma (splitList_comma hsource ht').1
  refine ((ClosesGroups.of_forall hfirst).append hclosed).append ?_
  split
  · exact .of_forall hcomma
  · exact .of_forall (by simp)

section

variable {n : Nat} {query : QueryWriter} (hq : query.LaysUpTo n)

theorem isPunct_of_isKeyword {t : Token} (h : t.isKeyword = true) (c : Char) :
    t.isPunct c = false := by
  simp_all [Token.isPunct, Token.isKeyword]

include hq

theorem writeItem_lays (column : Nat) {depth level : Nat} {w : Writer} {ts : List Token}
    {place : Option Nat} (hw : w.Within depth) (hle : depth ≤ level) (hts : ts.length ≤ n + 1)
    (hat : ∀ k ∈ place, ClosesGroups (ts.take k)) :
    ∃ ss, Lays LaidQuery depth w ts ss (writeItem query level column w ts place) := by
  cases place with
  | none =>
      obtain ⟨ss, hss, -⟩ := writeTokens_lays hq hw hle hts
      exact ⟨ss, hss⟩
  | some k =>
      have htake : (ts.take k).length ≤ n + 1 := by
        rw [List.length_take]
        omega
      have hdrop : (ts.drop k).length ≤ n + 1 := by
        rw [List.length_drop]
        omega
      obtain ⟨ss, hss, -⟩ := writeTokens_lays hq hw hle htake
      obtain ⟨ss', hss', -⟩ := writeTokens_lays hq (hss.within.padTo column) hle hdrop
      -- The pad puts no token on the line, so the spots are those of the tokens around it.
      have hboth := hss.trans (hat k rfl) (hss'.of_spots (Writer.spots_padTo _ column))
      rw [List.take_append_drop] at hboth
      exact ⟨_, hboth⟩

theorem writeRow_lays (o : LayoutOptions) {depth level column : Nat} {w : Writer} {row : Row}
    (hw : w.Within depth) (hle : depth ≤ level) (hrow : row.item.tokens.length ≤ n + 1)
    (hlead : ∀ t ∈ row.leading, t.isPunct ',' = true)
    (hcomma : ∀ t ∈ row.item.comma, t.isPunct ',' = true ∧ ClosesGroups row.item.tokens)
    (hat : ∀ k ∈ row.aliasAt, ClosesGroups (row.item.tokens.take k)) :
    ∃ ss, Lays LaidQuery depth w (row.written o) ss (writeRow o query level column w row) := by
  have hquiet : ∀ t ∈ row.leading.toList, t.isPunct '(' = false := fun t ht =>
    isPunct_of_isComma (hlead t (by simpa using ht))
  obtain ⟨ss, hss⟩ := pushAll_lays LaidQuery (hw.newline hle) hquiet
  have hfront := hss.of_spots (Writer.spots_newline w level)
  obtain ⟨ss', hss'⟩ := writeItem_lays hq column hfront.within hle hrow hat
  have hboth := hfront.trans (.of_forall hquiet) hss'
  rw [writeRow_eq, Row.written]
  split
  next =>
    refine comma_lays hboth fun t ht => ?_
    obtain ⟨hpunct, hclosed⟩ := hcomma t ht
    exact ⟨hpunct, (ClosesGroups.of_forall hquiet).append hclosed⟩
  next =>
    rw [List.append_nil]
    exact ⟨_, hboth⟩

theorem writeCondition_lays {depth level : Nat} {w : Writer} {c : Condition}
    (hw : w.Within depth) (hle : depth ≤ level) (htokens : c.tokens.length ≤ n + 1)
    (hop : ∀ t ∈ c.op, t.isKeyword = true) :
    ∃ ss, Lays LaidQuery depth w c.parts ss (writeCondition query level w c) := by
  unfold writeCondition Condition.parts
  cases hc : c.op with
  | none =>
      obtain ⟨ss, hss, -⟩ := writeTokens_lays hq hw hle htokens
      exact ⟨ss, hss⟩
  | some op =>
      have hquiet : ∀ t ∈ [op], t.isPunct '(' = false := by
        simpa using isPunct_of_isKeyword (hop op hc) '('
      obtain ⟨ss, hss⟩ := pushAll_lays LaidQuery (hw.newline hle) hquiet
      obtain ⟨ss', hss', -⟩ := writeTokens_lays hq hss.within hle htokens
      have hfront := hss.of_spots (Writer.spots_newline w level)
      exact ⟨_, hfront.trans (.of_forall hquiet) hss'⟩

theorem writeList_lays (o : LayoutOptions) {depth : Nat} {w : Writer} {c : Clause}
    (hw : w.Within depth) (hc : c.body.length ≤ n + 1) :
    ∃ ss, Lays LaidQuery depth w c.body ss (writeList o query depth w c) := by
  unfold writeList
  split
  next =>
    have hstep : ∀ row ∈ rows o c.kind (splitList c.body), ∀ w, Writer.Within depth w →
        ∃ ss, Lays LaidQuery depth w (row.written o) ss (writeRow o query (depth + 1)
          (((rows o c.kind (splitList c.body)).filterMap (Row.aliasColumn? o)).max?.getD 0)
          w row) := by
      intro row hrow w hw
      obtain ⟨hitem, hlead, hat⟩ := mem_rows hrow
      have hparts := length_le_of_parts (splitList_parts c.body) hitem
      rw [ListItem.parts, List.length_append] at hparts
      refine writeRow_lays hq o hw (Nat.le_succ depth) (by omega) ?_ ?_ ?_
      · intro t ht
        obtain ⟨source, hsource, hcomma⟩ := hlead t ht
        exact (splitList_comma hsource hcomma).1
      · exact fun t ht => splitList_comma hitem ht
      · exact fun k hk => alignedAlias?_closesGroups (hat ▸ hk)
    have hlay := foldl_lays hstep (rows_closesGroups o c.kind c.body) hw
    rwa [rows_written] at hlay
  next =>
    obtain ⟨ss, hss, -⟩ := writeTokens_lays hq hw (Nat.le_succ depth) hc
    exact ⟨ss, hss⟩

theorem writeConditions_lays (o : LayoutOptions) {depth : Nat} {w : Writer} {c : Clause}
    (hw : w.Within depth) (hc : c.body.length ≤ n + 1) :
    ∃ ss, Lays LaidQuery depth w c.body ss (writeConditions o query depth w c) := by
  unfold writeConditions
  split
  next =>
    have hop := conditionsFrom_op {} c.body
    have hstep : ∀ k ∈ splitConditions c.body, ∀ w, Writer.Within depth w →
        ∃ ss, Lays LaidQuery depth w k.parts ss (writeCondition query (depth + 1) w k) := by
      intro k hk w hw
      have hparts := length_le_of_parts (splitConditions_parts c.body) hk
      rw [Condition.parts, List.length_append] at hparts
      exact writeCondition_lays hq hw (Nat.le_succ depth) (by omega) (hop k hk)
    have hclose : ∀ k ∈ (splitConditions c.body).dropLast, ClosesGroups k.parts := by
      intro k hk
      have hkey := hop k (List.dropLast_subset _ hk)
      refine ClosesGroups.append (.of_forall fun t ht => ?_)
        (splitConditions_closesGroups c.body k hk)
      exact isPunct_of_isKeyword (hkey t (by simpa using ht)) '('
    have hlay := foldl_lays hstep hclose hw
    rwa [splitConditions_parts] at hlay
  next =>
    obtain ⟨ss, hss, -⟩ := writeTokens_lays hq hw (Nat.le_succ depth) hc
    exact ⟨ss, hss⟩

theorem writeCommonTable_lays {depth : Nat} {w : Writer} {item : ListItem}
    (hw : w.Within depth) (hitem : item.tokens.length ≤ n + 1)
    (hcomma : ∀ t ∈ item.comma, t.isPunct ',' = true ∧ ClosesGroups item.tokens) :
    ∃ ss, Lays LaidQuery depth w item.parts ss (writeCommonTable query depth w item) := by
  obtain ⟨ss, hss, -⟩ := writeTokens_lays hq hw (Nat.le_succ depth) hitem
  exact comma_lays hss hcomma

theorem writeCommonTables_lays {depth : Nat} {w : Writer} {c : Clause}
    (hw : w.Within depth) (hc : c.body.length ≤ n + 1) :
    ∃ ss, Lays LaidQuery depth w c.body ss (writeCommonTables query depth w c) := by
  have hstep : ∀ item ∈ splitList c.body, ∀ w, Writer.Within depth w →
      ∃ ss, Lays LaidQuery depth w item.parts ss (writeCommonTable query depth w item) := by
    intro item hitem w hw
    have hparts := length_le_of_parts (splitList_parts c.body) hitem
    rw [ListItem.parts, List.length_append] at hparts
    exact writeCommonTable_lays hq hw (by omega) fun t ht => splitList_comma hitem ht
  have hclose := parts_closesGroups c.body
  have hparts := splitList_parts c.body
  unfold writeCommonTables
  cases hitems : splitList c.body with
  | nil =>
      rw [hitems] at hparts
      rw [← hparts]
      exact ⟨_, .refl hw⟩
  | cons item items =>
      rw [hitems] at hstep hclose hparts
      obtain ⟨hfirst, hrest⟩ := List.forall_mem_cons.1 hstep
      obtain ⟨ss, hss⟩ := hfirst w hw
      rw [← hparts]
      cases items with
      | nil => exact ⟨ss, by simpa using hss⟩
      | cons next items =>
          rw [List.dropLast_cons_cons, List.forall_mem_cons] at hclose
          have hlines : ∀ item ∈ next :: items, ∀ w, Writer.Within depth w → ∃ ss,
              Lays LaidQuery depth w item.parts ss
                (writeCommonTable query depth (w.newline depth) item) := by
            intro item hitem w hw
            obtain ⟨ss, hss⟩ := hrest item hitem _ (hw.newline (Nat.le_refl depth))
            exact ⟨ss, hss.of_spots (Writer.spots_newline w depth)⟩
          obtain ⟨ss', hss'⟩ := foldl_lays hlines hclose.2 hss.within
          exact ⟨_, hss.trans hclose.1 hss'⟩

theorem writeBody_lays (o : LayoutOptions) {depth : Nat} {w : Writer} {c : Clause}
    (hw : w.Within depth) (hc : c.body.length ≤ n + 1) :
    ∃ ss, Lays LaidQuery depth w c.body ss
      (if c.kind.isList then writeList o query depth w c
      else if c.kind.isCondition then writeConditions o query depth w c
      else if c.kind = .commonTables then writeCommonTables query depth w c
      else writeTokens query (depth + 1) w c.body) := by
  split
  · exact writeList_lays hq o hw hc
  · split
    · exact writeConditions_lays hq o hw hc
    · split
      · exact writeCommonTables_lays hq hw hc
      · obtain ⟨ss, hss, -⟩ := writeTokens_lays hq hw (Nat.le_succ depth) hc
        exact ⟨ss, hss⟩

theorem writeClause_lays (o : LayoutOptions) (depth : Nat) {w : Writer} {c : Clause}
    (hw : w.inline = false) (hc : c.body.length ≤ n + 1) (hheaded : c.Headed) (hkeyed : c.Keyed) :
    ∃ ss, Lays LaidQuery depth w c.tokens ss (writeClause o query depth w c) ∧
      BeginAt depth ss := by
  have hmargin := ((Writer.AtMargin.of_newline hw depth).setContinuation (depth + 1)).setParenSpace
    (c.kind = .insertInto)
  -- whatever level the writer was at, from here on it stays at that of the clause
  have hwithin : (((w.newline depth).setContinuation (depth + 1)).setParenSpace
      (c.kind = .insertInto)).Within depth :=
    ⟨by simpa [Writer.setContinuation, Writer.setParenSpace] using hw,
      Nat.le_of_eq hmargin.current.symm, Nat.le_succ depth⟩
  have hspots : (((w.newline depth).setContinuation (depth + 1)).setParenSpace
      (c.kind = .insertInto)).spots = w.spots := Writer.spots_newline w depth
  unfold writeClause
  dsimp only
  generalize ((w.newline depth).setContinuation (depth + 1)).setParenSpace
    (c.kind = .insertInto) = w₁ at hmargin hwithin hspots
  rcases hheaded with ⟨hkind, hhead, -⟩ | ⟨-, hhead⟩
  · obtain ⟨ss, hss, hbegin⟩ := writeTokens_lays hq hwithin (Nat.le_succ depth) hc
    refine ⟨ss, ?_, hbegin depth hmargin⟩
    rw [Clause.tokens, hhead, hkind]
    exact hss.of_spots hspots
  · cases hcs : c.head with
    | nil => exact absurd hcs hhead
    | cons t hs =>
        have htext : t.text.isEmpty = false := by
          simpa using hkeyed.2 t (by rw [hcs, List.head?_cons]; rfl)
        obtain ⟨hkey, hkeys⟩ := List.forall_mem_cons.1 (hcs ▸ hkeyed.1)
        have hquiet : ∀ u ∈ hs, u.isPunct '(' = false := fun u hu =>
          isPunct_of_isKeyword (hkeys u hu) '('
        have hopen : opensQuery t (hs ++ c.body) = false := by
          rw [opensQuery, isPunct_of_isKeyword hkey, Bool.false_and]
        obtain ⟨ss, hss⟩ := pushAll_lays LaidQuery (hwithin.push t) hquiet
        obtain ⟨ss', hss'⟩ := writeBody_lays hq o hss.within hc
        have hall := Lays.push hwithin htext hopen (hss.trans (.of_forall hquiet) hss')
        refine ⟨w₁.place t :: (ss ++ ss'), ?_, .place hmargin t _⟩
        rw [Clause.tokens, hcs]
        exact hall.of_spots hspots

theorem clauses_lays (o : LayoutOptions) {depth level : Nat} (hle : depth ≤ level)
    {cs : List Clause} (hcs : ∀ c ∈ cs, c.body.length ≤ n + 1 ∧ c.Headed ∧ c.Keyed) {w : Writer}
    (hw : w.Within depth) :
    ∃ ss, LaidClauses level cs ss ∧
      (cs.foldl (writeClause o query level) w).spots = w.spots ++ ss ∧
      (∀ s ∈ ss, level ≤ s.depth) ∧ (cs.foldl (writeClause o query level) w).Within depth := by
  induction cs generalizing w with
  | nil => exact ⟨[], .nil, by simp, by simp, hw⟩
  | cons c cs ih =>
      obtain ⟨⟨hlength, hheaded, hkeyed⟩, hrest⟩ := List.forall_mem_cons.1 hcs
      obtain ⟨ss, hss, hbegin⟩ := writeClause_lays hq o level hw.inline hlength hheaded hkeyed
      obtain ⟨ss', hlaid, hspots, habove, hwithin⟩ := ih hrest (hss.within.mono hle)
      refine ⟨ss ++ ss', .cons hss.laid hbegin hss.above hlaid, ?_, ?_, hwithin⟩
      · rw [List.foldl_cons, hspots, hss.spots, List.append_assoc]
      · exact List.forall_mem_append.2 ⟨hss.above, habove⟩

end

theorem writeQuery_lays (o : LayoutOptions) (n : Nat) : (writeQuery o n).LaysUpTo n := by
  -- a query in parentheses has fewer tokens than what it stands among
  induction n with
  | zero =>
      intro w ts level depth hts _ hw
      obtain rfl := List.length_eq_zero_iff.1 (Nat.le_zero.1 hts)
      rw [writeQuery]
      refine ⟨[], ?_, by simp [Writer.pushAll], by simp, hw⟩
      rw [LaidQuery, splitClauses_nil]
      exact .nil
  | succ n ih =>
      intro w ts level depth hts hle hw
      rw [writeQuery]
      refine clauses_lays ih o hle (fun c hc => ?_) hw
      have hparts := length_le_of_parts (splitClauses_tokens ts) hc
      rw [Clause.tokens, List.length_append] at hparts
      exact ⟨by omega, splitClauses_headed ts c hc, splitClauses_keyed ts c hc⟩

theorem writeStatements_lays (o : LayoutOptions) (statements : List (List Token)) :
    ∃ sss, List.Forall₂ (LaidQuery 0) statements sss ∧
      (writeStatements o statements).spots = sss.flatten := by
  have hall (statements : List (List Token)) {w : Writer} (hw : w.Within 0) :
      ∃ sss, List.Forall₂ (LaidQuery 0) statements sss ∧
        (statements.foldl (fun w s => writeQuery o s.length w s 0) w).spots =
          w.spots ++ sss.flatten := by
    induction statements generalizing w with
    | nil => exact ⟨[], .nil, by simp⟩
    | cons s statements ih =>
        obtain ⟨ss, hlaid, hspots, -, hwithin⟩ :=
          writeQuery_lays o s.length w s 0 0 (Nat.le_refl _) (Nat.le_refl 0) hw
        obtain ⟨sss, hlaids, hrest⟩ := ih hwithin
        refine ⟨ss :: sss, .cons hlaid hlaids, ?_⟩
        rw [List.foldl_cons, hrest, hspots, List.flatten_cons, List.append_assoc]
  exact hall statements (w := {}) ⟨rfl, Nat.zero_le _, Nat.zero_le _⟩

theorem format_indented (o : LayoutOptions) (ts : List Token) :
    let statements := splitStatements (ts.filter Token.isSignificant)
    let w := writeStatements o statements
    (format o ts = w.finish o ∨
      ∃ only, statements = [only] ∧ singleLine? o only = some (format o ts)) ∧
    ∃ sss, List.Forall₂ (LaidQuery 0) statements sss ∧ w.spots = sss.flatten := by
  refine ⟨?_, writeStatements_lays o _⟩
  unfold format
  generalize splitStatements (ts.filter Token.isSignificant) = statements
  dsimp only
  split
  next line hline =>
    split at hline
    next only => exact .inr ⟨only, rfl, hline⟩
    next => cases hline
  next => exact .inl rfl

end EmbeddedSql.Layout
