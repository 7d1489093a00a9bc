import Mathlib.Data.List.Infix
import EmbeddedSql.Proofs.Clause.Grouping

namespace EmbeddedSql

def depthOf (ts : List Token) : Nat := ts.foldl Token.depthAfter 0

def IsCut (pieces : List (List Token)) (before : List Token) : Prop :=
  ∃ front back, pieces = front ++ back ∧ front ≠ [] ∧ back ≠ [] ∧ front.flatten = before

section

variable {u : Token} {piece before : List Token} {pieces : List (List Token)}

theorem not_isCut_singleton : ¬IsCut [piece] before := by
  rintro ⟨front, back, h, hfront, hback, -⟩
  have hlength := congrArg List.length h
  have := List.length_pos_of_ne_nil hfront
  have := List.length_pos_of_ne_nil hback
  rw [List.length_append, List.length_singleton] at hlength
  omega

theorem IsCut.prefix_flatten (h : IsCut pieces before) : before <+: pieces.flatten := by
  obtain ⟨front, back, rfl, -, -, rfl⟩ := h
  exact ⟨back.flatten, List.flatten_append.symm⟩

theorem isCut_cons (hne : pieces ≠ []) : IsCut (piece :: pieces) before ↔
    before = piece ∨ ∃ rest, before = piece ++ rest ∧ IsCut pieces rest := by
  constructor
  · rintro ⟨front, back, h, hfront, hback, rfl⟩
    obtain ⟨first, front, rfl⟩ := List.exists_cons_of_ne_nil hfront
    obtain ⟨rfl, rfl⟩ := List.cons.inj h
    cases front with
    | nil => exact .inl (by simp)
    | cons second front =>
        exact .inr ⟨_, rfl, second :: front, back, rfl, List.cons_ne_nil _ _, hback, rfl⟩
  · rintro (rfl | ⟨rest, rfl, front, back, rfl, -, hback, rfl⟩)
    · exact ⟨[before], pieces, rfl, List.cons_ne_nil _ _, hne, by simp⟩
    · exact ⟨piece :: front, back, rfl, List.cons_ne_nil _ _, hback, rfl⟩

theorem isCut_cons_cons :
    IsCut ((u :: piece) :: pieces) before ↔
      ∃ rest, before = u :: rest ∧ IsCut (piece :: pieces) rest := by
  cases pieces with
  | nil =>
      refine iff_of_false not_isCut_singleton ?_
      rintro ⟨rest, -, hcut⟩
      exact not_isCut_singleton hcut
  | cons second pieces =>
      simp only [isCut_cons (List.cons_ne_nil second pieces), List.cons_append]
      constructor
      · rintro (rfl | ⟨rest, rfl, hcut⟩)
        · exact ⟨piece, rfl, .inl rfl⟩
        · exact ⟨piece ++ rest, rfl, .inr ⟨rest, rfl, hcut⟩⟩
      · rintro ⟨-, rfl, rfl | ⟨rest, rfl, hcut⟩⟩
        · exact .inl rfl
        · exact .inr ⟨rest, rfl, hcut⟩

end

/-- Cut after each token that ends a piece outside brackets, starting at bracket depth `depth`. -/
def cutAfter (ends : Token → Bool) (depth : Nat) : List Token → List (List Token)
  | [] => [[]]
  | t :: r =>
      let depth := Token.depthAfter depth t
      if depth = 0 && ends t then [t] :: cutAfter ends depth r
      else match cutAfter ends depth r with
        | [] => [[t]]
        | piece :: pieces => (t :: piece) :: pieces

section

variable {ends : Token → Bool}

theorem cutAfter_ne_nil (ends : Token → Bool) (depth : Nat) (ts : List Token) :
    cutAfter ends depth ts ≠ [] := by
  cases ts with
  | nil => exact List.cons_ne_nil _ _
  | cons t r =>
      simp only [cutAfter]
      split
      · exact List.cons_ne_nil _ _
      · split <;> exact List.cons_ne_nil _ _

def EndsOutside (ends : Token → Bool) (depth : Nat) (before : List Token) : Prop :=
  before.getLast?.any ends = true ∧ before.foldl Token.depthAfter depth = 0

theorem not_endsOutside_nil {depth : Nat} : ¬EndsOutside ends depth [] := by
  simp [EndsOutside]

theorem endsOutside_cons {depth : Nat} {t : Token} {before : List Token} :
    EndsOutside ends depth (t :: before) ↔
      (before = [] ∧ (Token.depthAfter depth t = 0 && ends t) = true) ∨
        EndsOutside ends (Token.depthAfter depth t) before := by
  cases before with
  | nil => simp [EndsOutside, and_comm]
  | cons u before => simp [EndsOutside, List.getLast?_cons_cons]

theorem isCut_cutAfter {depth : Nat} {ts before after : List Token} (h : ts = before ++ after) :
    IsCut (cutAfter ends depth ts) before ↔ EndsOutside ends depth before := by
  induction ts generalizing depth before with
  | nil =>
      obtain ⟨rfl, -⟩ := List.append_eq_nil_iff.1 h.symm
      exact iff_of_false not_isCut_singleton not_endsOutside_nil
  | cons t r ih =>
      have hne := cutAfter_ne_nil ends (Token.depthAfter depth t) r
      simp only [cutAfter]
      cases before with
      | nil =>
          refine iff_of_false ?_ not_endsOutside_nil
          split
          · simp [isCut_cons hne]
          · split
            · exact not_isCut_singleton
            · simp [isCut_cons_cons]
      | cons u before =>
          obtain ⟨rfl, hr⟩ := List.cons.inj h
          rw [endsOutside_cons, ← ih hr]
          split
          next hcut => simp [isCut_cons hne, hcut]
          next hcut =>
            split
            next hnil => exact absurd hnil hne
            next piece pieces hpieces => simp [isCut_cons_cons, hpieces, hcut]

theorem eq_nil_of_cutAfter {depth : Nat} {ts : List Token} {pieces : List (List Token)}
    (h : cutAfter ends depth ts = [] :: pieces) : pieces = [] := by
  cases ts with
  | nil => exact (List.cons.inj h).2.symm
  | cons t r =>
      simp only [cutAfter] at h
      split at h
      · cases h
      · split at h <;> cases h

end

theorem isCut_filter {pieces : List (List Token)} {before : List Token} :
    IsCut (pieces.filter (!·.isEmpty)) before ↔
      IsCut pieces before ∧ before ≠ [] ∧ before ≠ pieces.flatten := by
  have hnonempty {ps : List (List Token)} :
      ps.filter (!·.isEmpty) = [] ↔ ps.flatten = [] := by
    simp [List.filter_eq_nil_iff]
  constructor
  · rintro ⟨front, back, h, hfront, hback, rfl⟩
    obtain ⟨ps, qs, rfl, rfl, rfl⟩ := List.filter_eq_append_iff.1 h
    rw [Ne, hnonempty] at hfront hback
    rw [List.flatten_filter_not_isEmpty]
    refine ⟨⟨ps, qs, rfl, ?_, ?_, rfl⟩, hfront, ?_⟩
    · rintro rfl
      exact hfront rfl
    · rintro rfl
      exact hback rfl
    · simpa using hback
  · rintro ⟨⟨front, back, rfl, -, -, rfl⟩, hfront, hback⟩
    refine ⟨front.filter (!·.isEmpty), back.filter (!·.isEmpty), List.filter_append .., ?_, ?_,
      List.flatten_filter_not_isEmpty⟩
    · rwa [Ne, hnonempty]
    · rw [Ne, hnonempty]
      simpa using hback

theorem statementsFrom_eq (depth : Nat) (ts : List Token) :
    statementsFrom depth ts = (cutAfter (·.isPunct ';') depth ts).filter (!·.isEmpty) := by
  induction ts generalizing depth with
  | nil => rfl
  | cons t r ih =>
      simp only [statementsFrom, cutAfter, ih]
      split
      · simp
      · cases hpieces : cutAfter (·.isPunct ';') (Token.depthAfter depth t) r with
        | nil => exact absurd hpieces (cutAfter_ne_nil _ _ _)
        | cons piece pieces =>
            cases piece with
            | nil =>
                obtain rfl := eq_nil_of_cutAfter hpieces
                rfl
            | cons u piece => simp

theorem itemsFrom_eq (depth : Nat) (ts : List Token) :
    (itemsFrom depth ts).map ListItem.parts = cutAfter (·.isPunct ',') depth ts := by
  induction ts generalizing depth with
  | nil => rfl
  | cons t r ih =>
      simp only [itemsFrom, cutAfter, ← ih]
      split
      · rfl
      · cases itemsFrom (Token.depthAfter depth t) r <;> rfl

theorem isCut_splitStatements {ts before after : List Token} (h : ts = before ++ after) :
    IsCut (splitStatements ts) before ↔
      after ≠ [] ∧ before.getLast?.any (·.isPunct ';') = true ∧ depthOf before = 0 := by
  have hflatten : (cutAfter (·.isPunct ';') 0 ts).flatten = ts := by
    rw [← List.flatten_filter_not_isEmpty, ← statementsFrom_eq, statementsFrom_flatten]
  rw [splitStatements, statementsFrom_eq, isCut_filter, isCut_cutAfter h, hflatten, EndsOutside]
  constructor
  · rintro ⟨hends, -, hne⟩
    refine ⟨?_, hends⟩
    rintro rfl
    exact hne (by simp [h])
  · rintro ⟨hafter, hends⟩
    refine ⟨hends, ?_, ?_⟩
    · rintro rfl
      simp at hends
    · rw [h]
      simpa using hafter

theorem isCut_splitList {ts before after : List Token} (h : ts = before ++ after) :
    IsCut ((splitList ts).map ListItem.parts) before ↔
      before.getLast?.any (·.isPunct ',') = true ∧ depthOf before = 0 := by
  rw [splitList, itemsFrom_eq, isCut_cutAfter h]
  rfl

def outside (p : Token → Bool) (depth : Nat) : List Token → List Token
  | [] => []
  | t :: r =>
      let depth := Token.depthAfter depth t
      if depth = 0 && p t then t :: outside p depth r else outside p depth r

theorem itemsFrom_commas (depth : Nat) (ts : List Token) :
    (itemsFrom depth ts).map ListItem.comma =
      (outside (·.isPunct ',') depth ts).map some ++ [none] := by
  induction ts generalizing depth with
  | nil => rfl
  | cons t r ih =>
      have hr := ih (Token.depthAfter depth t)
      simp only [itemsFrom, outside]
      split
      · simp [hr]
      · cases hitems : itemsFrom (Token.depthAfter depth t) r with
        | nil => simp [hitems] at hr
        | cons item items => simpa [hitems] using hr

theorem Token.not_bracket_of_isKeyword {t : Token} (h : t.isKeyword = true) :
    t.isOpening = false ∧ t.isClosing = false := by
  have hkind : t.kind = .keyword := by simpa [isKeyword] using h
  simp [isOpening, isClosing, isPunct, hkind]

theorem foldl_depthAfter_of_isKeyword {ts : List Token} (h : ∀ t ∈ ts, t.isKeyword = true)
    (depth : Nat) : ts.foldl Token.depthAfter depth = depth := by
  induction ts with
  | nil => rfl
  | cons t ts ih =>
      obtain ⟨ht, hts⟩ := List.forall_mem_cons.1 h
      obtain ⟨hopen, hclose⟩ := Token.not_bracket_of_isKeyword ht
      rw [List.foldl_cons, Token.depthAfter, hopen, hclose]
      exact ih hts

namespace Clause

theorem splitFrom_depth (current : ClauseKind) (atStart : Bool) (previous : Option Token)
    (depth : Nat) (ts : List Token) : ∀ front c back,
      (splitFrom current atStart previous depth ts).2 = front ++ c :: back →
        ((splitFrom current atStart previous depth ts).1 ++ front.flatMap Clause.tokens).foldl
          Token.depthAfter depth = 0 := by
  fun_induction splitFrom current atStart previous depth ts with
  | case1 => simp
  | case2 current atStart previous depth t r start kind n hstart head body clauses hrest ih =>
      rw [hrest] at ih
      intro front c back hclauses
      simp only [start] at hstart
      split at hstart
      next hkey =>
        obtain ⟨hdepth, hkey⟩ := Bool.and_eq_true_iff.1 hkey
        obtain rfl := of_decide_eq_true hdepth
        have hhead : ∀ u ∈ head, u.isKeyword = true :=
          List.forall_mem_cons.2 ⟨hkey, Layout.head?_keywords hstart⟩
        cases front with
        | nil => rfl
        | cons first front =>
            obtain ⟨rfl, hlater⟩ := List.cons.inj hclauses
            rw [List.flatMap_cons, Clause.tokens, List.nil_append, List.append_assoc,
              List.foldl_append, foldl_depthAfter_of_isKeyword hhead]
            exact ih front c back hlater
      next => cases hstart
  | case3 current atStart previous depth t r start hstart body clauses hrest ih =>
      rw [hrest] at ih
      exact ih

end Clause

theorem splitClauses_depth {ts : List Token} {front back : List Clause} {c : Clause}
    (h : splitClauses ts = front ++ c :: back) : depthOf (front.flatMap Clause.tokens) = 0 := by
  unfold splitClauses at h
  split at h
  next clauses hs =>
    have hdepth := Clause.splitFrom_depth .preamble true none 0 ts front c back
    rw [hs] at hdepth
    exact hdepth h
  next body clauses hne hs =>
    cases front with
    | nil => rfl
    | cons first front =>
        obtain ⟨rfl, hlater⟩ := List.cons.inj h
        have hdepth := Clause.splitFrom_depth .preamble true none 0 ts front c back
        rw [hs] at hdepth
        exact hdepth hlater

structure IsGroup (ts : List Token) : Prop where
  split : ∃ opening inner closing, ts = opening :: (inner ++ [closing]) ∧
    opening.isOpening = true ∧ closing.isClosing = true ∧
    (∀ front, front <+: inner → 1 ≤ front.foldl Token.depthAfter 1) ∧
    inner.foldl Token.depthAfter 1 = 1

def LiesWithin (pieces : List (List Token)) (before group after : List Token) : Prop :=
  ∃ front piece back u v, pieces = front ++ piece :: back ∧ before = front.flatten ++ u ∧
    piece = u ++ group ++ v ∧ after = v ++ back.flatten

theorem depthAfter_mono {d e : Nat} (h : d ≤ e) (t : Token) :
    Token.depthAfter d t ≤ Token.depthAfter e t := by
  unfold Token.depthAfter
  split
  · omega
  · split <;> omega

theorem foldl_depthAfter_mono {d e : Nat} (h : d ≤ e) (ts : List Token) :
    ts.foldl Token.depthAfter d ≤ ts.foldl Token.depthAfter e := by
  induction ts generalizing d e with
  | nil => exact h
  | cons t ts ih => exact ih (depthAfter_mono h t)

namespace IsGroup

variable {group : List Token}

theorem pos_of_prefix (h : IsGroup group) {front : List Token} (hne : front ≠ [])
    (hlength : front.length < group.length) (hbegins : front <+: group) (depth : Nat) :
    1 ≤ front.foldl Token.depthAfter depth := by
  obtain ⟨opening, inner, closing, rfl, hopen, -, hinner, -⟩ := h.split
  obtain ⟨t, front, rfl⟩ := List.exists_cons_of_ne_nil hne
  obtain ⟨rfl, hrest⟩ := List.cons_prefix_cons.1 hbegins
  have hle : front.length ≤ inner.length := by
    simp only [List.length_cons, List.length_append, List.length_nil] at hlength
    omega
  have hfront := hinner front (List.prefix_of_prefix_length_le hrest (List.prefix_append ..) hle)
  rw [List.foldl_cons, Token.depthAfter, if_pos hopen]
  exact Nat.le_trans hfront (foldl_depthAfter_mono (Nat.le_add_left 1 depth) front)

theorem liesWithin (h : IsGroup group) (depth : Nat) {pieces : List (List Token)}
    {before after : List Token} (hflatten : pieces.flatten = before ++ group ++ after)
    (hcut : ∀ cut, IsCut pieces cut → cut.foldl Token.depthAfter depth = 0) :
    LiesWithin pieces before group after := by
  induction pieces generalizing before depth with
  | nil =>
      obtain ⟨opening, inner, closing, rfl, -⟩ := h.split
      simp at hflatten
  | cons piece pieces ih =>
      rw [List.flatten_cons, List.append_assoc] at hflatten
      have hcases : (∃ rest, before = piece ++ rest ∧ pieces.flatten = rest ++ (group ++ after)) ∨
          ∃ rest, rest ≠ [] ∧ piece = before ++ rest ∧ group ++ after = rest ++ pieces.flatten := by
        rcases List.append_eq_append_iff.1 hflatten with hshort | ⟨rest, hpiece, hrest⟩
        · exact .inl hshort
        · by_cases hne : rest = []
          · subst hne
            exact .inl ⟨[], by simpa using hpiece.symm, by simpa using hrest.symm⟩
          · exact .inr ⟨rest, hne, hpiece, hrest⟩
      rcases hcases with ⟨rest, rfl, hrest⟩ | ⟨rest, hne, rfl, hrest⟩
      · -- The piece ends before the group begins.
        have hlater : ∀ cut, IsCut pieces cut →
            cut.foldl Token.depthAfter (piece.foldl Token.depthAfter depth) = 0 := by
          rintro cut ⟨front, back, rfl, hfront, hback, rfl⟩
          rw [← List.foldl_append]
          exact hcut _ ⟨piece :: front, back, rfl, List.cons_ne_nil _ _, hback, rfl⟩
        rw [← List.append_assoc] at hrest
        obtain ⟨front, within, back, u, v, rfl, rfl, rfl, rfl⟩ := ih _ hrest hlater
        exact ⟨piece :: front, _, back, u, v, rfl, by simp, rfl, rfl⟩
      · rcases List.append_eq_append_iff.1 hrest with ⟨v, rfl, rfl⟩ | ⟨missing, rfl, hmissing⟩
        · exact ⟨[], _, pieces, before, v, rfl, by simp, by simp, rfl⟩
        · by_cases hwhole : missing = []
          · subst hwhole
            exact ⟨[], _, pieces, before, [], rfl, by simp, by simp, by simpa using hmissing.symm⟩
          · -- The piece would end inside the group.
            have hpieces : pieces ≠ [] := by
              rintro rfl
              simp [hwhole] at hmissing
            have hzero := hcut _ ((isCut_cons hpieces).2 (.inl rfl))
            have hpos := h.pos_of_prefix hne (by simpa using List.length_pos_of_ne_nil hwhole)
              (List.prefix_append rest missing) (before.foldl Token.depthAfter depth)
            rw [List.foldl_append] at hzero
            omega

section

variable {ts before after : List Token}

theorem liesWithin_statement (h : IsGroup group) (hts : ts = before ++ group ++ after) :
    LiesWithin (splitStatements ts) before group after := by
  refine h.liesWithin 0 ((splitStatements_flatten ts).trans hts) ?_
  intro cut hcut
  obtain ⟨rest, hrest⟩ := hcut.prefix_flatten
  rw [splitStatements_flatten] at hrest
  exact ((isCut_splitStatements hrest.symm).1 hcut).2.2

theorem liesWithin_body (h : IsGroup group) (hts : ts = before ++ group ++ after) :
    ∃ front c back u v, splitClauses ts = front ++ c :: back ∧
      before = front.flatMap Clause.tokens ++ c.head ++ u ∧ c.body = u ++ group ++ v ∧
      after = v ++ back.flatMap Clause.tokens := by
  have hflatten : ((splitClauses ts).map Clause.tokens).flatten = before ++ group ++ after := by
    rw [← List.flatMap_def, splitClauses_tokens, hts]
  have hcut : ∀ cut, IsCut ((splitClauses ts).map Clause.tokens) cut → depthOf cut = 0 := by
    rintro cut ⟨front, back, hpieces, -, hback, rfl⟩
    obtain ⟨cs, ds, hclauses, rfl, rfl⟩ := List.map_eq_append_iff.1 hpieces
    obtain ⟨c, ds, rfl⟩ := List.exists_cons_of_ne_nil (mt List.map_eq_nil_iff.2 hback)
    rw [← List.flatMap_def]
    exact splitClauses_depth hclauses
  obtain ⟨front, piece, back, u, v, hpieces, rfl, hpiece, rfl⟩ := h.liesWithin 0 hflatten hcut
  obtain ⟨front, rest, hclauses, rfl, hrest⟩ := List.map_eq_append_iff.1 hpieces
  obtain ⟨c, back, rfl, rfl, rfl⟩ := List.map_eq_cons_iff.1 hrest
  -- The head of the clause has no brackets, so the group begins behind it.
  obtain ⟨opening, inner, closing, rfl, hopen, -⟩ := h.split
  have hkeyed := (splitClauses_keyed ts c (by simp [hclauses])).1
  rw [Clause.tokens, List.append_assoc] at hpiece
  rcases List.append_eq_append_iff.1 hpiece with ⟨u, rfl, hbody⟩ | ⟨rest, hhead, hbody⟩
  · exact ⟨front, c, back, u, v, hclauses, by simp [List.flatMap_def], by simpa using hbody,
      by rw [List.flatMap_def]⟩
  · cases rest with
    | nil =>
        refine ⟨front, c, back, [], v, hclauses, ?_, by simpa using hbody.symm,
          by rw [List.flatMap_def]⟩
        rw [List.append_nil] at hhead
        simp [List.flatMap_def, hhead]
    | cons t rest =>
        obtain ⟨rfl, -⟩ := List.cons.inj hbody
        have hkey := hkeyed opening (by simp [hhead])
        rw [(Token.not_bracket_of_isKeyword hkey).1] at hopen
        cases hopen

theorem before_comma (h : IsGroup group) {item : ListItem} {u v : List Token}
    (hparts : item.parts = u ++ group ++ v) (hcomma : ∀ t ∈ item.comma, t.isPunct ',' = true) :
    ∃ w, item.tokens = u ++ group ++ w ∧ v = w ++ item.comma.toList := by
  rw [ListItem.parts] at hparts
  cases hitem : item.comma with
  | none =>
      rw [hitem] at hparts
      exact ⟨v, by simpa using hparts, by simp⟩
  | some t =>
      rw [hitem] at hparts
      rw [Option.toList_some] at hparts ⊢
      obtain rfl | ⟨w, last, rfl⟩ := v.eq_nil_or_concat'
      · obtain ⟨opening, inner, closing, rfl, -, hclose, -⟩ := h.split
        have hends : item.tokens ++ [t] = (u ++ opening :: inner) ++ [closing] := by
          rw [hparts]
          simp
        obtain ⟨-, hlast⟩ := List.append_inj' hends rfl
        obtain rfl := List.singleton_inj.1 hlast
        have hpunct := hcomma t hitem
        simp_all [Token.isClosing, Token.isPunct]
      · rw [← List.append_assoc] at hparts
        obtain ⟨htokens, hlast⟩ := List.append_inj' hparts rfl
        exact ⟨w, htokens, by rw [hlast]⟩

theorem liesWithin_item (h : IsGroup group) (hts : ts = before ++ group ++ after) :
    ∃ front item back u v, splitList ts = front ++ item :: back ∧
      before = front.flatMap ListItem.parts ++ u ∧ item.tokens = u ++ group ++ v ∧
      after = v ++ item.comma.toList ++ back.flatMap ListItem.parts := by
  have hflatten : ((splitList ts).map ListItem.parts).flatten = before ++ group ++ after := by
    rw [← List.flatMap_def, splitList_parts, hts]
  have hcut : ∀ cut, IsCut ((splitList ts).map ListItem.parts) cut → depthOf cut = 0 := by
    intro cut hcut
    obtain ⟨rest, hrest⟩ := hcut.prefix_flatten
    rw [← List.flatMap_def, splitList_parts] at hrest
    exact ((isCut_splitList hrest.symm).1 hcut).2
  obtain ⟨front, piece, back, u, v, hpieces, rfl, hpiece, rfl⟩ := h.liesWithin 0 hflatten hcut
  obtain ⟨front, rest, hitems, rfl, hrest⟩ := List.map_eq_append_iff.1 hpieces
  obtain ⟨item, back, rfl, rfl, rfl⟩ := List.map_eq_cons_iff.1 hrest
  have hmem : item ∈ splitList ts := by simp [hitems]
  obtain ⟨w, hw, rfl⟩ : ∃ w, item.tokens = u ++ group ++ w ∧ v = w ++ item.comma.toList :=
    h.before_comma hpiece (itemsFrom_comma 0 ts item hmem)
  exact ⟨front, item, back, u, w, hitems, by rw [List.flatMap_def], hw, by rw [List.flatMap_def]⟩

end

end IsGroup

theorem splits_outside_groups (ts : List Token) :
    ((splitStatements ts).flatten = ts ∧
      (splitClauses ts).flatMap (fun c => c.head ++ c.body) = ts ∧
      (splitList ts).flatMap (fun item => item.tokens ++ item.comma.toList) = ts) ∧
    (∀ before after, ts = before ++ after → (IsCut (splitStatements ts) before ↔
      after ≠ [] ∧ before.getLast?.any (·.isPunct ';') = true ∧ depthOf before = 0)) ∧
    ((splitList ts).length = (outside (·.isPunct ',') 0 ts).length + 1 ∧
      (splitList ts).map ListItem.comma = (outside (·.isPunct ',') 0 ts).map some ++ [none]) ∧
    (∀ front c back, splitClauses ts = front ++ c :: back →
      depthOf (front.flatMap Clause.tokens) = 0 ∧
      ∀ t ∈ c.head, t.isOpening = false ∧ t.isClosing = false) ∧
    ∀ before group after, IsGroup group → ts = before ++ group ++ after →
      (∃ front s back u v, splitStatements ts = front ++ s :: back ∧
        before = front.flatten ++ u ∧ s = u ++ group ++ v ∧ after = v ++ back.flatten) ∧
      (∃ front c back u v, splitClauses ts = front ++ c :: back ∧
        before = front.flatMap Clause.tokens ++ c.head ++ u ∧ c.body = u ++ group ++ v ∧
        after = v ++ back.flatMap Clause.tokens) ∧
      ∃ front item back u v, splitList ts = front ++ item :: back ∧
        before = front.flatMap ListItem.parts ++ u ∧ item.tokens = u ++ group ++ v ∧
        after = v ++ item.comma.toList ++ back.flatMap ListItem.parts := by
  have hcommas : (splitList ts).map ListItem.comma =
      (outside (·.isPunct ',') 0 ts).map some ++ [none] := itemsFrom_commas 0 ts
  have hlength : (splitList ts).length = (outside (·.isPunct ',') 0 ts).length + 1 := by
    simpa using congrArg List.length hcommas
  refine ⟨⟨splitStatements_flatten ts, splitClauses_tokens ts, splitList_parts ts⟩,
    fun _ _ => isCut_splitStatements, ⟨hlength, hcommas⟩, ?_, ?_⟩
  · intro front c back hclauses
    have hkeyed := (splitClauses_keyed ts c (by simp [hclauses])).1
    exact ⟨splitClauses_depth hclauses, fun t ht => Token.not_bracket_of_isKeyword (hkeyed t ht)⟩
  · intro before group after hgroup hts
    exact ⟨hgroup.liesWithin_statement hts, hgroup.liesWithin_body hts,
      hgroup.liesWithin_item hts⟩

theorem splits_outside_groups_pair :
    let name := fun c : Char => (⟨.identifier, [c], 0⟩ : Token)
    let punct := fun c : Char => (⟨.punctuation, [c], 0⟩ : Token)
    let group := [punct '(', name 'a', punct ',', name 'b', punct ')']
    let ts := [name 'f'] ++ group ++ [punct ',', name 'c']
    IsGroup group ∧ ∃ item ∈ splitList ts, group <:+: item.tokens := by
  intro name punct group ts
  have hfronts : ∀ front ∈ [name 'a', punct ',', name 'b'].inits,
      1 ≤ front.foldl Token.depthAfter 1 := by decide
  have hgroup : IsGroup group := ⟨punct '(', [name 'a', punct ',', name 'b'], punct ')', rfl, rfl,
    rfl, fun front hfront => hfronts front ((List.mem_inits front _).2 hfront), by decide⟩
  obtain ⟨-, -, -, -, hgroups⟩ := splits_outside_groups ts
  obtain ⟨-, -, front, item, back, u, v, hitems, -, htokens, -⟩ :=
    hgroups [name 'f'] group [punct ',', name 'c'] hgroup rfl
  exact ⟨hgroup, item, by simp [hitems], u, v, htokens.symm⟩

end EmbeddedSql
