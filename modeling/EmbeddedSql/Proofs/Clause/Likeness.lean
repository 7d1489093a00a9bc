import EmbeddedSql.Clause
import EmbeddedSql.Clause.Splitting
import EmbeddedSql.Proofs.Token.Likeness

namespace EmbeddedSql.Layout

variable {case : KeywordCase} {b : Bool} {ts qs : List Token}

namespace Alike

theorem group (h : Alike case b ts qs) (depth : Nat) :
    Alike case b (ts.take (groupLength depth ts)) (qs.take (groupLength depth qs)) ∧
      TwinFirst case (ts.drop (groupLength depth ts)) (qs.drop (groupLength depth qs)) := by
  induction h generalizing depth with
  | nil => exact ⟨.nil, .nil⟩
  | @twin b t q ts qs ht hts ih =>
      have hcons (d : Nat) : Alike case b ((t :: ts).take (1 + groupLength d ts))
          ((q :: qs).take (1 + groupLength d qs)) ∧ TwinFirst case
            ((t :: ts).drop (1 + groupLength d ts)) ((q :: qs).drop (1 + groupLength d qs)) := by
        rw [Nat.add_comm 1, Nat.add_comm 1]
        exact ⟨.twin ht (ih d).1, (ih d).2⟩
      simp only [groupLength, ht.isOpening, ht.isClosing]
      split
      · exact hcons _
      · split
        · split
          · exact ⟨.nil, .cons ht hts⟩
          · exact hcons _
        · exact hcons _
  | @joined b p u q ts qs hj hts ih =>
      obtain ⟨hp, hu, hq⟩ := hj.plain
      have hlength : groupLength depth (p :: u :: ts) = groupLength depth ts + 1 + 1 := by
        simp only [groupLength, hp.isOpening, hp.isClosing, hu.isOpening, hu.isClosing]
        simp only [Bool.false_eq_true, if_false]
        omega
      have hlength' : groupLength depth (q :: qs) = groupLength depth qs + 1 := by
        simp only [groupLength, hq.isOpening, hq.isClosing]
        simp only [Bool.false_eq_true, if_false]
        omega
      rw [hlength, hlength']
      exact ⟨.joined hj (ih depth).1, (ih depth).2⟩

theorem groupTokens (h : Alike case b ts qs) :
    Alike case b (groupTokens ts) (EmbeddedSql.groupTokens qs) :=
  (h.group 1).1

theorem isSubquery (h : Alike case b ts qs) : isSubquery qs = EmbeddedSql.isSubquery ts := by
  unfold EmbeddedSql.isSubquery
  induction h with
  | nil => rfl
  | @twin b t q ts qs ht _ ih =>
      by_cases hkind : t.kind = .comment
      · have hq : q.kind = .comment := by rw [ht.kind, hkind]
        rw [List.find?_cons_of_neg (by simp [hq]), List.find?_cons_of_neg (by simp [hkind])]
        exact ih
      · have hq : q.kind ≠ .comment := by rwa [ht.kind]
        rw [List.find?_cons_of_pos (by simp [hq]), List.find?_cons_of_pos (by simp [hkind])]
        exact ht.isKeywordAmong _
  | @joined b p u q ts qs hj _ _ =>
      obtain ⟨hp, -, hq⟩ := hj.plain
      rw [List.find?_cons_of_pos (by simp [hq.kind_ne_comment]),
        List.find?_cons_of_pos (by simp [hp.kind_ne_comment])]
      exact (hq.isKeywordAmong _).trans (hp.isKeywordAmong _).symm

theorem containsSubquery (h : Alike case b ts qs) :
    containsSubquery qs = EmbeddedSql.containsSubquery ts := by
  induction h with
  | nil => rfl
  | twin ht hts ih =>
      rw [EmbeddedSql.containsSubquery, EmbeddedSql.containsSubquery, ht.isPunct,
        hts.groupTokens.isSubquery, ih]
  | joined hj hts ih =>
      obtain ⟨hp, hu, hq⟩ := hj.plain
      rw [EmbeddedSql.containsSubquery, EmbeddedSql.containsSubquery, EmbeddedSql.containsSubquery,
        hp.isPunct, hu.isPunct, hq.isPunct, ih]
      simp

end Alike

inductive AlikeStatements (case : KeywordCase) : Bool → List (List Token) → List (List Token) → Prop
  | nil {b : Bool} : AlikeStatements case b [] []
  | cons {b : Bool} {s s' : List Token} {ss ss' : List (List Token)} : Alike case b s s' →
      AlikeStatements case (signAfter b s) ss ss' → AlikeStatements case b (s :: ss) (s' :: ss')

theorem Alike.statements (h : Alike case b ts qs) (depth : Nat) :
    AlikeStatements case b (statementsFrom depth ts) (statementsFrom depth qs) := by
  induction h generalizing depth with
  | nil => exact .nil
  | @twin b t q ts qs ht _ ih =>
      have hrest := ih (Token.depthAfter depth t)
      simp only [statementsFrom, ht.depthAfter, ht.isPunct]
      split
      · exact .cons (.twin ht .nil) hrest
      · generalize statementsFrom _ ts = ss at hrest ⊢
        generalize statementsFrom _ qs = ss' at hrest ⊢
        cases hrest with
        | nil => exact .cons (.twin ht .nil) .nil
        | cons hs hss => exact .cons (.twin ht hs) hss
  | @joined b p u q ts qs hj _ ih =>
      obtain ⟨hp, hu, hq⟩ := hj.plain
      have hrest := ih depth
      simp only [statementsFrom, hp.depthAfter, hu.depthAfter, hq.depthAfter, hp.isPunct,
        hu.isPunct, hq.isPunct, Bool.and_false, Bool.false_eq_true, if_false]
      generalize statementsFrom _ ts = ss at hrest ⊢
      generalize statementsFrom _ qs = ss' at hrest ⊢
      cases hrest with
      | nil => exact .cons (.joined hj .nil) .nil
      | cons hs hss => exact .cons (.joined hj hs) hss

inductive AlikeItems (case : KeywordCase) : Bool → List ListItem → List ListItem → Prop
  | last {b : Bool} {ts qs : List Token} : Alike case b ts qs →
      AlikeItems case b [⟨ts, none⟩] [⟨qs, none⟩]
  | cons {b : Bool} {c d : Token} {ts qs : List Token} {is js : List ListItem} :
      Alike case b ts qs → Twin case c d → AlikeItems case (allowsSign (some c)) is js →
      AlikeItems case b (⟨ts, some c⟩ :: is) (⟨qs, some d⟩ :: js)

theorem AlikeItems.length_eq {is js : List ListItem} (h : AlikeItems case b is js) :
    js.length = is.length := by
  induction h with
  | last _ => rfl
  | cons _ _ _ ih => rw [List.length_cons, List.length_cons, ih]

theorem Alike.items (h : Alike case b ts qs) (depth : Nat) :
    AlikeItems case b (itemsFrom depth ts) (itemsFrom depth qs) := by
  induction h generalizing depth with
  | nil => exact .last .nil
  | @twin b t q ts qs ht _ ih =>
      have hrest := ih (Token.depthAfter depth t)
      simp only [itemsFrom, ht.depthAfter, ht.isPunct]
      split
      · exact .cons .nil ht hrest
      · generalize itemsFrom _ ts = is at hrest ⊢
        generalize itemsFrom _ qs = js at hrest ⊢
        cases hrest with
        | last h => exact .last (.twin ht h)
        | cons h hc hrest => exact .cons (.twin ht h) hc hrest
  | @joined b p u q ts qs hj _ ih =>
      obtain ⟨hp, hu, hq⟩ := hj.plain
      have hrest := ih depth
      simp only [itemsFrom, hp.depthAfter, hu.depthAfter, hq.depthAfter, hp.isPunct,
        hu.isPunct, hq.isPunct, Bool.and_false, Bool.false_eq_true, if_false]
      generalize itemsFrom _ ts = is at hrest ⊢
      generalize itemsFrom _ qs = js at hrest ⊢
      cases hrest with
      | last h => exact .last (.joined hj h)
      | cons h hc hrest => exact .cons (.joined hj h) hc hrest

inductive AlikeAt (case : KeywordCase) (b : Bool) (ts qs : List Token) :
    Option Nat → Option Nat → Prop
  | none : AlikeAt case b ts qs none none
  | some {m n : Nat} : Alike case b (ts.take m) (qs.take n) →
      TwinFirst case (ts.drop m) (qs.drop n) → AlikeAt case b ts qs (some m) (some n)

theorem Alike.alias (h : Alike case b ts qs) (depth : Nat) :
    AlikeAt case b ts qs (aliasFrom? depth ts) (aliasFrom? depth qs) := by
  induction h generalizing depth with
  | nil => exact .none
  | @twin b t q ts qs ht hts ih =>
      have hrest := ih (Token.depthAfter depth t)
      simp only [aliasFrom?, ht.depthAfter, ht.isKeywordNamed]
      generalize aliasFrom? _ ts = m at hrest ⊢
      generalize aliasFrom? _ qs = n at hrest ⊢
      cases hrest with
      | some htake hdrop => exact .some (.twin ht htake) hdrop
      | none =>
          dsimp only
          split
          · exact .some .nil (.cons ht hts)
          · exact .none
  | @joined b p u q ts qs hj _ ih =>
      obtain ⟨hp, hu, hq⟩ := hj.plain
      have hrest := ih depth
      simp only [aliasFrom?, hp.depthAfter, hu.depthAfter, hq.depthAfter, hp.isKeywordNamed,
        hu.isKeywordNamed, hq.isKeywordNamed, Bool.and_false, Bool.false_eq_true, if_false]
      generalize aliasFrom? _ ts = m at hrest ⊢
      generalize aliasFrom? _ qs = n at hrest ⊢
      cases hrest with
      | some htake hdrop => exact .some (.joined hj htake) hdrop
      | none => exact .none

def AlikeLink (case : KeywordCase) (c d : Condition) : Prop :=
  ∃ op op', c.op = some op ∧ d.op = some op' ∧ Twin case op op' ∧
    Alike case (allowsSign (some op)) c.tokens d.tokens

inductive AlikeChain (case : KeywordCase) (b : Bool) : List Condition → List Condition → Prop
  | mk {ts qs : List Token} {cs ds : List Condition} : Alike case b ts qs →
      List.Forall₂ (AlikeLink case) cs ds → AlikeChain case b (⟨none, ts⟩ :: cs) (⟨none, qs⟩ :: ds)

theorem AlikeChain.length_eq {cs ds : List Condition} (h : AlikeChain case b cs ds) :
    ds.length = cs.length := by
  obtain ⟨_, hlinks⟩ := h
  rw [List.length_cons, List.length_cons, hlinks.length_eq]

theorem Twin.splitsAt {t q : Token} (h : Twin case t q) (p : ChainPosition) :
    p.splitsAt q = p.splitsAt t := by
  rw [ChainPosition.splitsAt, ChainPosition.splitsAt, h.isKeywordNamed, h.isKeywordNamed]

theorem Twin.next {t q : Token} (h : Twin case t q) (p : ChainPosition) :
    p.next q = p.next t := by
  simp only [ChainPosition.next, h.isKeywordNamed, h.depthAfter]

theorem IsPlain.splitsAt {t : Token} (h : IsPlain t) (p : ChainPosition) :
    p.splitsAt t = false := by
  simp [ChainPosition.splitsAt, h.isKeywordNamed]

theorem IsPlain.next {t : Token} (h : IsPlain t) (p : ChainPosition) : p.next t = p := by
  simp [ChainPosition.next, h.isKeywordNamed, h.depthAfter]

theorem Alike.conditions (h : Alike case b ts qs) (p : ChainPosition) :
    AlikeChain case b (conditionsFrom p ts) (conditionsFrom p qs) := by
  induction h generalizing p with
  | nil => exact .mk .nil .nil
  | @twin b t q ts qs ht _ ih =>
      simp only [conditionsFrom, ht.splitsAt, ht.next]
      split
      · have hrest := ih p
        generalize conditionsFrom _ ts = cs at hrest ⊢
        generalize conditionsFrom _ qs = ds at hrest ⊢
        obtain ⟨htokens, hlinks⟩ := hrest
        exact .mk .nil (.cons ⟨t, q, rfl, rfl, ht, htokens⟩ hlinks)
      · have hrest := ih (p.next t)
        generalize conditionsFrom _ ts = cs at hrest ⊢
        generalize conditionsFrom _ qs = ds at hrest ⊢
        obtain ⟨htokens, hlinks⟩ := hrest
        exact .mk (.twin ht htokens) hlinks
  | @joined b t u q ts qs hj _ ih =>
      obtain ⟨ht, hu, hq⟩ := hj.plain
      have hrest := ih p
      simp only [conditionsFrom, ht.splitsAt, hu.splitsAt, hq.splitsAt, ht.next, hu.next, hq.next,
        Bool.false_eq_true, if_false]
      generalize conditionsFrom _ ts = cs at hrest ⊢
      generalize conditionsFrom _ qs = ds at hrest ⊢
      obtain ⟨htokens, hlinks⟩ := hrest
      exact .mk (.joined hj htokens) hlinks

structure AlikeClause (case : KeywordCase) (b : Bool) (c d : Clause) : Prop where
  kind : d.kind = c.kind
  head : List.Forall₂ (Twin case) c.head d.head
  body : Alike case (signAfter b c.head) c.body d.body

theorem AlikeClause.tokens {c d : Clause} (h : AlikeClause case b c d) :
    Alike case b c.tokens d.tokens :=
  Alike.append_twins h.head h.body

inductive AlikeClauses (case : KeywordCase) (b : Bool) : List Clause → List Clause → Prop
  | nil : AlikeClauses case b [] []
  | cons {c d : Clause} {cs ds : List Clause} : AlikeClause case b c d →
      List.Forall₂ (fun c d => ∀ b, AlikeClause case b c d) cs ds →
      AlikeClauses case b (c :: cs) (d :: ds)

def AgreeKeyword (previous previous' : Option Token) : Prop :=
  ∀ word, previous'.any (·.isKeywordNamed word) = previous.any (·.isKeywordNamed word)

namespace Alike

theorem head_isKeywordAmong (h : Alike case b ts qs) (words : List Text) :
    qs.head?.any (·.isKeywordAmong words) = ts.head?.any (·.isKeywordAmong words) := by
  cases h with
  | nil => rfl
  | twin ht _ => exact ht.isKeywordAmong words
  | joined hj _ => exact (hj.plain.2.2.isKeywordAmong _).trans (hj.plain.1.isKeywordAmong _).symm

theorem optional (h : Alike case b ts qs) (words : List String) :
    Clause.optional qs.head? words = Clause.optional ts.head? words := by
  rw [Clause.optional, Clause.optional, h.head_isKeywordAmong]

theorem keywords (h : Alike case b ts qs) {n : Nat} (hn : ∀ t ∈ ts.take n, t.isKeyword = true) :
    List.Forall₂ (Twin case) (ts.take n) (qs.take n) ∧
      Alike case (signAfter b (ts.take n)) (ts.drop n) (qs.drop n) := by
  induction n generalizing b ts qs with
  | zero => exact ⟨.nil, h⟩
  | succ n ih =>
      cases h with
      | nil => exact ⟨.nil, .nil⟩
      | twin ht hts =>
          obtain ⟨htake, hdrop⟩ := ih hts fun t ht => hn t (by simp [ht])
          exact ⟨.cons ht htake, hdrop⟩
      | @joined _ p _ _ _ _ hj _ =>
          have := hn p (by simp)
          simp [hj.plain.1.isKeyword] at this

theorem length_takeWhile (h : Alike case b ts qs) (words : List Text) :
    (qs.takeWhile (·.isKeywordAmong words)).length =
      (ts.takeWhile (·.isKeywordAmong words)).length := by
  induction h with
  | nil => rfl
  | twin ht _ ih =>
      rw [List.takeWhile_cons, List.takeWhile_cons, ht.isKeywordAmong]
      split
      · rw [List.length_cons, List.length_cons, ih]
      · rfl
  | joined hj _ _ =>
      rw [List.takeWhile_cons, List.takeWhile_cons, hj.plain.1.isKeywordAmong,
        hj.plain.2.2.isKeywordAmong]
      rfl

end Alike

theorem isKeyword_of_isKeywordAmong {t : Token} {words : List Text}
    (h : t.isKeywordAmong words = true) : t.isKeyword = true := by
  obtain ⟨word, -, hword⟩ := List.any_eq_true.1 h
  exact (Bool.and_eq_true_iff.1 hword).1

theorem optional_keywords (ts : List Token) (words : List String) :
    ∀ t ∈ ts.take (Clause.optional ts.head? words), t.isKeyword = true := by
  intro t ht
  unfold Clause.optional at ht
  split at ht
  next hany =>
    cases ts with
    | nil => simp at ht
    | cons u us =>
        obtain rfl : t = u := by simpa using ht
        exact isKeyword_of_isKeywordAmong hany
  · simp at ht

theorem takeWhile_keywords (ts : List Token) (words : List Text) :
    ∀ t ∈ ts.take (ts.takeWhile (·.isKeywordAmong words)).length, t.isKeyword = true := by
  rw [← List.prefix_iff_eq_take.1 (List.takeWhile_prefix _)]
  exact fun t ht => isKeyword_of_isKeywordAmong (List.all_eq_true.1 List.all_takeWhile t ht)

theorem joinHead_keywords {words : List Text} {next : List String}
    (h : Clause.optional
      (ts.drop (ts.takeWhile (·.isKeywordAmong words)).length).head? next = 1) :
    ∀ t ∈ ts.take ((ts.takeWhile (·.isKeywordAmong words)).length + 1), t.isKeyword = true := by
  have hnext := optional_keywords (ts.drop (ts.takeWhile (·.isKeywordAmong words)).length) next
  rw [h] at hnext
  intro t ht
  rw [List.take_add] at ht
  rcases List.mem_append.1 ht with ht | ht
  · exact takeWhile_keywords ts words t ht
  · exact hnext t ht

theorem head?_keywords {previous : Option Token} {current kind : ClauseKind} {atStart : Bool}
    {t : Token} {n : Nat} (h : Clause.head? previous current atStart t ts = some (kind, n)) :
    ∀ u ∈ ts.take n, u.isKeyword = true := by
  have hone {words : List String} (hopt : Clause.optional ts.head? words = 1) :
      ∀ u ∈ ts.take 1, u.isKeyword = true := by
    rw [← hopt]
    exact optional_keywords ts words
  simp only [Clause.head?] at h
  split at h <;> (try split at h) <;>
    simp only [Option.some.injEq, Prod.mk.injEq, reduceCtorEq] at h
  all_goals obtain ⟨-, rfl⟩ := h
  all_goals first
    | exact optional_keywords ts _
    | exact hone (by assumption)
    | exact fun u hu => by simp at hu
    | exact joinHead_keywords (of_decide_eq_true (Bool.and_eq_true_iff.1 ‹(_ && _) = true›).2)

theorem Alike.head? (h : Alike case b ts qs) {t q : Token} (ht : Twin case t q)
    {previous previous' : Option Token} (hprevious : AgreeKeyword previous previous')
    (current : ClauseKind) (atStart : Bool) :
    Clause.head? previous' current atStart q qs = Clause.head? previous current atStart t ts := by
  have hjoin : Clause.optional (qs.drop
        (qs.takeWhile (·.isKeywordAmong Clause.joinModifiers)).length).head? ["JOIN"] =
      Clause.optional (ts.drop
        (ts.takeWhile (·.isKeywordAmong Clause.joinModifiers)).length).head? ["JOIN"] := by
    rw [h.length_takeWhile]
    exact (h.keywords (takeWhile_keywords ts _)).2.optional _
  simp only [Clause.head?, ht.upper, hprevious _, h.optional, h.length_takeWhile] at hjoin ⊢
  rw [hjoin]

theorem AgreeKeyword.of_twins {hs ks : List Token} (h : List.Forall₂ (Twin case) hs ks) :
    AgreeKeyword hs.getLast? ks.getLast? := by
  induction h with
  | nil => exact fun _ => rfl
  | cons ht h ih =>
      intro word
      cases h with
      | nil => exact ht.isKeywordNamed word
      | cons _ _ => exact ih word

theorem Alike.splitFrom (h : Alike case b ts qs) (current : ClauseKind) (atStart : Bool)
    {previous previous' : Option Token} (hprevious : AgreeKeyword previous previous')
    (depth : Nat) :
    Alike case b (Clause.splitFrom current atStart previous depth ts).1
        (Clause.splitFrom current atStart previous' depth qs).1 ∧
      List.Forall₂ (fun c d => ∀ b, AlikeClause case b c d)
        (Clause.splitFrom current atStart previous depth ts).2
        (Clause.splitFrom current atStart previous' depth qs).2 := by
  -- a clause takes its whole head at once, so the induction is on the number of tokens left
  induction hn : ts.length using Nat.strongRecOn
    generalizing b ts qs current atStart previous previous' depth with
  | _ n ih =>
  cases h with
  | nil => exact ⟨by simp [Clause.splitFrom, Alike.nil], by simp [Clause.splitFrom]⟩
  | @twin _ t q ts qs ht hts =>
      rw [Clause.splitFrom, Clause.splitFrom, ht.isKeyword, hts.head? ht hprevious]
      cases hstart : (if depth = 0 && t.isKeyword then
          Clause.head? previous current atStart t ts else none) with
      | none =>
          have hagree : AgreeKeyword (some t) (some q) := ht.isKeywordNamed
          have hrest := ih ts.length (by simp [← hn]) hts current
            (atStart && decide (t.kind = .comment)) hagree (Token.depthAfter depth t) rfl
          simp only [ht.kind, ht.depthAfter]
          exact ⟨.twin ht hrest.1, hrest.2⟩
      | some found =>
          obtain ⟨kind, k⟩ := found
          have hhead : Clause.head? previous current atStart t ts = some (kind, k) := by
            split at hstart
            · exact hstart
            · simp at hstart
          obtain ⟨htake, hdrop⟩ := hts.keywords (head?_keywords hhead)
          have htwins := List.Forall₂.cons ht htake
          have hshort : (ts.drop k).length < n := by
            simp only [← hn, List.length_drop, List.length_cons]
            omega
          have hrest := ih (ts.drop k).length hshort hdrop kind false
            (AgreeKeyword.of_twins htwins) depth rfl
          exact ⟨.nil, .cons (fun b => ⟨rfl, htwins, hrest.1⟩) hrest.2⟩
  | @joined _ p u q ts qs hj hts =>
      obtain ⟨hp, hu, hq⟩ := hj.plain
      have hagree : AgreeKeyword (some u) (some q) := fun word =>
        (hq.isKeywordNamed word).trans (hu.isKeywordNamed word).symm
      have hshort : ts.length < n := by
        simp only [← hn, List.length_cons]
        omega
      have hrest := ih ts.length hshort hts current false hagree depth rfl
      rw [Clause.splitFrom, Clause.splitFrom, Clause.splitFrom]
      simp only [hp.isKeyword, hu.isKeyword, hq.isKeyword, hp.kind_ne_comment, hq.kind_ne_comment,
        hp.depthAfter, hu.depthAfter, hq.depthAfter, Bool.and_false, Bool.false_eq_true, if_false,
        decide_false, Bool.false_and]
      exact ⟨.joined hj hrest.1, hrest.2⟩

theorem Alike.clauses (h : Alike case b ts qs) :
    AlikeClauses case b (splitClauses ts) (splitClauses qs) := by
  have hsplit := h.splitFrom .preamble true (fun _ => rfl : AgreeKeyword none none) 0
  unfold splitClauses
  generalize Clause.splitFrom .preamble true none 0 ts = x at hsplit ⊢
  generalize Clause.splitFrom .preamble true none 0 qs = y at hsplit ⊢
  obtain ⟨body, clauses⟩ := x
  obtain ⟨body', clauses'⟩ := y
  obtain ⟨hbody, hclauses⟩ := hsplit
  dsimp only at hbody hclauses
  cases hbody with
  | nil =>
      cases hclauses with
      | nil => exact .nil
      | cons hc hcs => exact .cons (hc b) hcs
  | twin ht hts => exact .cons ⟨rfl, .nil, .twin ht hts⟩ hclauses
  | joined hj hts => exact .cons ⟨rfl, .nil, .joined hj hts⟩ hclauses

end EmbeddedSql.Layout
