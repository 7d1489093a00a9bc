import EmbeddedSql.Clause
import EmbeddedSql.Clause.Splitting

namespace EmbeddedSql

theorem statementsFrom_flatten (depth : Nat) (ts : List Token) :
    (statementsFrom depth ts).flatten = ts := by
  induction ts generalizing depth with
  | nil => rfl
  | cons t r ih =>
      have hr := ih (Token.depthAfter depth t)
      simp only [statementsFrom]
      split
      · simp [hr]
      · cases hs : statementsFrom (Token.depthAfter depth t) r with
        | nil => rw [hs] at hr; simpa using hr
        | cons s ss => rw [hs] at hr; simpa using hr

theorem splitStatements_flatten (ts : List Token) : (splitStatements ts).flatten = ts :=
  statementsFrom_flatten 0 ts

def ListItem.parts (item : ListItem) : List Token := item.tokens ++ item.comma.toList

theorem itemsFrom_parts (depth : Nat) (ts : List Token) :
    (itemsFrom depth ts).flatMap ListItem.parts = ts := by
  induction ts generalizing depth with
  | nil => rfl
  | cons t r ih =>
      have hr := ih (Token.depthAfter depth t)
      simp only [itemsFrom]
      split
      · simp [ListItem.parts, hr]
      · cases hs : itemsFrom (Token.depthAfter depth t) r with
        | nil => rw [hs] at hr; simpa [ListItem.parts] using hr
        | cons s ss => rw [hs] at hr; simpa [ListItem.parts] using hr

theorem splitList_parts (ts : List Token) : (splitList ts).flatMap ListItem.parts = ts :=
  itemsFrom_parts 0 ts

theorem itemsFrom_comma (depth : Nat) (ts : List Token) :
    ∀ item ∈ itemsFrom depth ts, ∀ t ∈ item.comma, t.isPunct ',' = true := by
  induction ts generalizing depth with
  | nil => simp [itemsFrom]
  | cons t r ih =>
      have hr := ih (Token.depthAfter depth t)
      simp only [itemsFrom]
      split
      next hcut =>
        intro item hitem
        rcases List.mem_cons.1 hitem with rfl | hitem
        · simp_all
        · exact hr item hitem
      · cases hs : itemsFrom (Token.depthAfter depth t) r with
        | nil => simp
        | cons s ss => rw [hs] at hr; simpa using hr

def Condition.parts (c : Condition) : List Token := c.op.toList ++ c.tokens

theorem conditionsFrom_head_op (p : ChainPosition) (ts : List Token) :
    ∃ tokens cs, conditionsFrom p ts = ⟨none, tokens⟩ :: cs := by
  induction ts generalizing p with
  | nil => exact ⟨[], [], rfl⟩
  | cons t r ih =>
      simp only [conditionsFrom]
      split
      · obtain ⟨tokens, cs, h⟩ := ih p
        exact ⟨[], ⟨some t, tokens⟩ :: cs, by rw [h]⟩
      · obtain ⟨tokens, cs, h⟩ := ih (p.next t)
        exact ⟨t :: tokens, cs, by rw [h]⟩

theorem conditionsFrom_parts (p : ChainPosition) (ts : List Token) :
    (conditionsFrom p ts).flatMap Condition.parts = ts := by
  induction ts generalizing p with
  | nil => rfl
  | cons t r ih =>
      simp only [conditionsFrom]
      split
      · obtain ⟨tokens, cs, h⟩ := conditionsFrom_head_op p r
        have hr := ih p
        rw [h] at hr ⊢
        simpa [Condition.parts] using hr
      · obtain ⟨tokens, cs, h⟩ := conditionsFrom_head_op (p.next t) r
        have hr := ih (p.next t)
        rw [h] at hr ⊢
        simpa [Condition.parts] using hr

theorem splitConditions_parts (ts : List Token) :
    (splitConditions ts).flatMap Condition.parts = ts :=
  conditionsFrom_parts {} ts

namespace Clause

theorem head?_kind {previous : Option Token} {current : ClauseKind} {atStart : Bool} {t : Token}
    {r : List Token} {kind : ClauseKind} {n : Nat}
    (h : head? previous current atStart t r = some (kind, n)) : kind ≠ .preamble := by
  rintro rfl
  simp only [head?] at h
  split at h <;> (try split at h) <;>
    simp only [Option.some.injEq, Prod.mk.injEq, reduceCtorEq, false_and] at h

theorem splitFrom_tokens (current : ClauseKind) (atStart : Bool) (previous : Option Token)
    (depth : Nat) (ts : List Token) :
    (splitFrom current atStart previous depth ts).1 ++
      (splitFrom current atStart previous depth ts).2.flatMap Clause.tokens = ts := by
  fun_induction splitFrom current atStart previous depth ts with
  | case1 => rfl
  | case2 current atStart previous depth t r start kind n hstart head body clauses hrest ih =>
      rw [hrest] at ih
      simp only [Clause.tokens, head, List.flatMap_cons, List.nil_append, List.cons_append,
        List.append_assoc, ih, List.take_append_drop]
  | case3 current atStart previous depth t r start hstart body clauses hrest ih =>
      rw [hrest] at ih
      simpa using ih

def Headed (c : Clause) : Prop :=
  (c.kind = .preamble ∧ c.head = [] ∧ c.body ≠ []) ∨ (c.kind ≠ .preamble ∧ c.head ≠ [])

theorem splitFrom_forall {P : Clause → Prop}
    (hP : ∀ {previous current atStart t r kind n body}, t.isKeyword = true →
      head? previous current atStart t r = some (kind, n) → P ⟨kind, t :: r.take n, body⟩)
    (current : ClauseKind) (atStart : Bool) (previous : Option Token) (depth : Nat)
    (ts : List Token) : ∀ c ∈ (splitFrom current atStart previous depth ts).2, P c := by
  fun_induction splitFrom current atStart previous depth ts with
  | case1 => simp
  | case2 current atStart previous depth t r start kind n hstart head body clauses hrest ih =>
      rw [hrest] at ih
      simp only [start] at hstart
      split at hstart
      next hkey =>
        exact List.forall_mem_cons.2 ⟨hP (Bool.and_eq_true_iff.1 hkey).2 hstart, ih⟩
      next => cases hstart
  | case3 current atStart previous depth t r start hstart body clauses hrest ih =>
      rw [hrest] at ih
      exact ih

end Clause

theorem splitClauses_tokens (ts : List Token) :
    (splitClauses ts).flatMap Clause.tokens = ts := by
  have h := Clause.splitFrom_tokens .preamble true none 0 ts
  unfold splitClauses
  split
  next clauses hs => simpa [hs] using h
  next body clauses hs => simpa [hs, Clause.tokens] using h

theorem splitClauses_forall {P : Clause → Prop}
    (hP : ∀ {previous current atStart t r kind n body}, t.isKeyword = true →
      Clause.head? previous current atStart t r = some (kind, n) → P ⟨kind, t :: r.take n, body⟩)
    (hpreamble : ∀ {body}, body ≠ [] → P ⟨.preamble, [], body⟩) (ts : List Token) :
    ∀ c ∈ splitClauses ts, P c := by
  have h := Clause.splitFrom_forall (P := P) hP .preamble true none 0 ts
  unfold splitClauses
  split
  next clauses hs => simpa [hs] using h
  next body clauses hne hs =>
    exact List.forall_mem_cons.2 ⟨hpreamble hne, by simpa [hs] using h⟩

theorem splitClauses_headed (ts : List Token) : ∀ c ∈ splitClauses ts, c.Headed :=
  splitClauses_forall (fun _ h => .inr ⟨Clause.head?_kind h, List.cons_ne_nil _ _⟩)
    (fun hbody => .inl ⟨rfl, rfl, hbody⟩) ts

theorem groupTokens_append (ts : List Token) :
    groupTokens ts ++ ts.drop (groupLength 1 ts) = ts :=
  List.take_append_drop _ _

end EmbeddedSql
