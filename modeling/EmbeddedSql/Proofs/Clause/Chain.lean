import Mathlib.Data.List.Induction
import EmbeddedSql.Proofs.Clause.Partition

namespace EmbeddedSql

structure Nesting where
  brackets : Nat := 0
  cases : Nat := 0
  deriving DecidableEq, Repr

namespace Nesting

def after (n : Nesting) (t : Token) : Nesting where
  brackets := Token.depthAfter n.brackets t
  cases :=
    if n.brackets ≠ 0 then n.cases
    else if t.isKeywordNamed "CASE".toList then n.cases + 1
    else if t.isKeywordNamed "END".toList then n.cases - 1
    else n.cases

def isUnbracketed (n : Nesting) : Bool := n.brackets = 0

def isOutermost (n : Nesting) : Bool := n.brackets = 0 && n.cases = 0

end Nesting

def nestingAfter (ts : List Token) : Nesting := ts.foldl Nesting.after {}

/-- Each outermost `AND`, and each `BETWEEN` that stands at a nesting that `counts`. -/
def jointsFrom (counts : Nesting → Bool) (n : Nesting) : List Token → List Token
  | [] => []
  | t :: r =>
      if (t.isKeywordNamed "BETWEEN".toList && counts n) ||
          (t.isKeywordNamed "AND".toList && n.isOutermost) then
        t :: jointsFrom counts (n.after t) r
      else jointsFrom counts (n.after t) r

def awaitsAnd (counts : Nesting → Bool) (before : List Token) : Bool :=
  (jointsFrom counts {} before).getLast?.any (·.isKeywordNamed "BETWEEN".toList)

/-- An outermost `OR`, or an outermost `AND` that is not a `BETWEEN`'s own. -/
def joinsConditions (counts : Nesting → Bool) (before : List Token) (t : Token) : Bool :=
  (nestingAfter before).isOutermost &&
    (t.isKeywordNamed "OR".toList ||
      (t.isKeywordNamed "AND".toList && !awaitsAnd counts before))

def BeginsCondition (cs : List Condition) (before : List Token) (t : Token) : Prop :=
  ∃ front c back, cs = front ++ c :: back ∧ front.flatMap Condition.parts = before ∧ c.op = some t

def CutsExactly (counts : Nesting → Bool) (ts : List Token) : Prop :=
  ∀ before t after, ts = before ++ t :: after →
    (BeginsCondition (splitConditions ts) before t ↔ joinsConditions counts before t = true)

namespace Token

variable {t : Token} {word : Text}

theorem isKeywordNamed_ne (h : t.isKeywordNamed word = true) (other : Text)
    (hne : word.lower ≠ other.lower) : t.isKeywordNamed other = false := by
  simp only [isKeywordNamed, Text.equalsIgnoringCase, Bool.and_eq_true, beq_iff_eq] at h
  simp [isKeywordNamed, Text.equalsIgnoringCase, h.1, h.2, hne]

theorem depthAfter_of_isKeywordNamed (h : t.isKeywordNamed word = true) (depth : Nat) :
    depthAfter depth t = depth := by
  have hkind : t.kind = .keyword := by simp_all [isKeywordNamed, isKeyword]
  simp [depthAfter, isOpening, isClosing, isPunct, hkind]

end Token

section Conditions

variable {u t : Token} {tokens before : List Token} {cs : List Condition}

theorem beginsCondition_first : BeginsCondition (⟨none, tokens⟩ :: cs) before t ↔
    ∃ front c back, cs = front ++ c :: back ∧ tokens ++ front.flatMap Condition.parts = before ∧
      c.op = some t := by
  constructor
  · rintro ⟨front, c, back, hcs, rfl, hop⟩
    cases front with
    | nil =>
        obtain ⟨rfl, -⟩ := List.cons.inj hcs
        cases hop
    | cons x front =>
        obtain ⟨rfl, hrest⟩ := List.cons.inj hcs
        exact ⟨front, c, back, hrest, rfl, hop⟩
  · rintro ⟨front, c, back, rfl, rfl, hop⟩
    exact ⟨⟨none, tokens⟩ :: front, c, back, rfl, rfl, hop⟩

theorem beginsCondition_token : BeginsCondition (⟨none, u :: tokens⟩ :: cs) before t ↔
    ∃ rest, before = u :: rest ∧ BeginsCondition (⟨none, tokens⟩ :: cs) rest t := by
  simp only [beginsCondition_first]
  constructor
  · rintro ⟨front, c, back, rfl, rfl, hop⟩
    exact ⟨_, rfl, front, c, back, rfl, rfl, hop⟩
  · rintro ⟨rest, rfl, front, c, back, rfl, rfl, hop⟩
    exact ⟨front, c, back, rfl, rfl, hop⟩

theorem beginsCondition_operator :
    BeginsCondition (⟨none, []⟩ :: ⟨some u, tokens⟩ :: cs) before t ↔
      (before = [] ∧ t = u) ∨
        ∃ rest, before = u :: rest ∧ BeginsCondition (⟨none, tokens⟩ :: cs) rest t := by
  simp only [beginsCondition_first]
  constructor
  · rintro ⟨front, c, back, hcs, rfl, hop⟩
    cases front with
    | nil =>
        obtain ⟨rfl, -⟩ := List.cons.inj hcs
        exact .inl ⟨rfl, (Option.some.inj hop).symm⟩
    | cons x front =>
        obtain ⟨rfl, rfl⟩ := List.cons.inj hcs
        exact .inr ⟨_, rfl, front, c, back, rfl, rfl, hop⟩
  · rintro (⟨rfl, rfl⟩ | ⟨rest, rfl, front, c, back, rfl, rfl, hop⟩)
    · exact ⟨[], ⟨some t, tokens⟩, cs, rfl, rfl, rfl⟩
    · exact ⟨⟨some u, tokens⟩ :: front, c, back, rfl, rfl, hop⟩

end Conditions

def ChainPosition.step (p : ChainPosition) (t : Token) : ChainPosition :=
  if p.splitsAt t then p else p.next t

theorem beginsCondition_conditionsFrom (p : ChainPosition) {ts before after : List Token}
    {t : Token} (h : ts = before ++ t :: after) :
    BeginsCondition (conditionsFrom p ts) before t ↔
      (before.foldl ChainPosition.step p).splitsAt t = true := by
  induction ts generalizing p before with
  | nil => simp at h
  | cons u r ih =>
      rw [conditionsFrom]
      split
      next hcut =>
        obtain ⟨tokens, cs, hcs⟩ := conditionsFrom_head_op p r
        rw [hcs, beginsCondition_operator, ← hcs]
        cases before with
        | nil =>
            obtain ⟨rfl, -⟩ := List.cons.inj h
            simpa using hcut
        | cons w before =>
            obtain ⟨rfl, hr⟩ := List.cons.inj h
            simpa [ChainPosition.step, hcut] using ih p hr
      next hcut =>
        obtain ⟨tokens, cs, hcs⟩ := conditionsFrom_head_op (p.next u) r
        rw [hcs, beginsCondition_token, ← hcs]
        cases before with
        | nil =>
            obtain ⟨rfl, -⟩ := List.cons.inj h
            simpa using hcut
        | cons w before =>
            obtain ⟨rfl, hr⟩ := List.cons.inj h
            simpa [ChainPosition.step, hcut] using ih (p.next u) hr

theorem conditionsFrom_tail_op (p : ChainPosition) (ts : List Token) :
    ∀ c ∈ (conditionsFrom p ts).tail, c.op.isSome = true := by
  induction ts generalizing p with
  | nil => simp [conditionsFrom]
  | cons t r ih =>
      rw [conditionsFrom]
      split
      · obtain ⟨tokens, cs, hcs⟩ := conditionsFrom_head_op p r
        have hrest := ih p
        rw [hcs] at hrest ⊢
        simpa using hrest
      · obtain ⟨tokens, cs, hcs⟩ := conditionsFrom_head_op (p.next t) r
        have hrest := ih (p.next t)
        rw [hcs] at hrest ⊢
        simpa using hrest

theorem nestingAfter_concat (ts : List Token) (t : Token) :
    nestingAfter (ts ++ [t]) = (nestingAfter ts).after t := by
  simp [nestingAfter]

theorem jointsFrom_concat (counts : Nesting → Bool) (n : Nesting) (ts : List Token) (t : Token) :
    jointsFrom counts n (ts ++ [t]) =
      jointsFrom counts n ts ++ jointsFrom counts (ts.foldl Nesting.after n) [t] := by
  induction ts generalizing n with
  | nil => rfl
  | cons u ts ih =>
      simp only [List.cons_append, jointsFrom, ih, List.foldl_cons]
      split <;> rfl

theorem awaitsAnd_concat (counts : Nesting → Bool) (ts : List Token) (t : Token) :
    awaitsAnd counts (ts ++ [t]) =
      if t.isKeywordNamed "BETWEEN".toList && counts (nestingAfter ts) then true
      else if t.isKeywordNamed "AND".toList && (nestingAfter ts).isOutermost then false
      else awaitsAnd counts ts := by
  have hand : t.isKeywordNamed "AND".toList = true → t.isKeywordNamed "BETWEEN".toList = false :=
    fun h => Token.isKeywordNamed_ne h _ (by decide)
  unfold awaitsAnd nestingAfter
  rw [jointsFrom_concat, jointsFrom, jointsFrom]
  generalize t.isKeywordNamed "AND".toList = isAnd at hand ⊢
  generalize hbetween : t.isKeywordNamed "BETWEEN".toList = isBetween at hand ⊢
  cases isBetween <;> cases isAnd <;> split <;> simp_all

theorem Nesting.after_of_isKeywordNamed {t : Token} {word : Text} (n : Nesting)
    (h : t.isKeywordNamed word = true) (hcase : word.lower ≠ Text.lower "CASE".toList)
    (hend : word.lower ≠ Text.lower "END".toList) : n.after t = n := by
  have hnot := Token.isKeywordNamed_ne h _ hcase
  have hnot' := Token.isKeywordNamed_ne h _ hend
  simp only [after, Token.depthAfter_of_isKeywordNamed h, hnot, hnot', Bool.false_eq_true,
    if_false, ite_self]

theorem step_eq (n : Nesting) (waits : Bool) (t : Token) :
    ChainPosition.step ⟨n.brackets, n.cases, waits⟩ t =
      ⟨(n.after t).brackets, (n.after t).cases,
        if t.isKeywordNamed "BETWEEN".toList && n.isUnbracketed then true
        else if t.isKeywordNamed "AND".toList && n.isOutermost then false
        else waits⟩ := by
  unfold ChainPosition.step ChainPosition.splitsAt ChainPosition.next
  by_cases hand : t.isKeywordNamed "AND".toList = true
  · have hcase := Token.isKeywordNamed_ne hand "CASE".toList (by decide)
    have hend := Token.isKeywordNamed_ne hand "END".toList (by decide)
    have hbetween := Token.isKeywordNamed_ne hand "BETWEEN".toList (by decide)
    have hor := Token.isKeywordNamed_ne hand "OR".toList (by decide)
    rw [n.after_of_isKeywordNamed hand (by decide) (by decide)]
    simp only [hand, hcase, hend, hbetween, hor, Token.depthAfter_of_isKeywordNamed hand,
      Nesting.isOutermost]
    cases waits <;> by_cases hb : n.brackets = 0 <;> by_cases hc : n.cases = 0 <;> simp [hb, hc]
  by_cases hor : t.isKeywordNamed "OR".toList = true
  · have hcase := Token.isKeywordNamed_ne hor "CASE".toList (by decide)
    have hend := Token.isKeywordNamed_ne hor "END".toList (by decide)
    have hbetween := Token.isKeywordNamed_ne hor "BETWEEN".toList (by decide)
    rw [n.after_of_isKeywordNamed hor (by decide) (by decide)]
    simp only [hand, hcase, hend, hbetween, Token.depthAfter_of_isKeywordNamed hor]
    simp
  by_cases hbetween : t.isKeywordNamed "BETWEEN".toList = true
  · have hcase := Token.isKeywordNamed_ne hbetween "CASE".toList (by decide)
    have hend := Token.isKeywordNamed_ne hbetween "END".toList (by decide)
    rw [n.after_of_isKeywordNamed hbetween (by decide) (by decide)]
    simp only [hand, hor, hcase, hend, hbetween, Token.depthAfter_of_isKeywordNamed hbetween,
      Nesting.isUnbracketed]
    by_cases hb : n.brackets = 0 <;> simp [hb]
  · simp only [hand, hor, hbetween, Nesting.after]
    by_cases hb : n.brackets = 0
    · simp only [hb]
      by_cases hcase : t.isKeywordNamed "CASE".toList = true <;>
        by_cases hend : t.isKeywordNamed "END".toList = true <;> simp only [hcase, hend] <;> simp
    · simp [hb]

theorem foldl_step (before : List Token) : before.foldl ChainPosition.step {} =
    ⟨(nestingAfter before).brackets, (nestingAfter before).cases,
      awaitsAnd Nesting.isUnbracketed before⟩ := by
  induction before using List.reverseRecOn with
  | nil => rfl
  | append_singleton ts t ih =>
      rw [List.foldl_append, List.foldl_cons, List.foldl_nil, ih, nestingAfter_concat,
        awaitsAnd_concat, step_eq]

theorem cutsExactly_isUnbracketed (ts : List Token) : CutsExactly Nesting.isUnbracketed ts := by
  intro before t after h
  rw [splitConditions, beginsCondition_conditionsFrom {} h, foldl_step]
  rfl

theorem cutsExactly_iff (counts : Nesting → Bool) (ts : List Token) :
    CutsExactly counts ts ↔ ∀ before t after, ts = before ++ t :: after →
      t.isKeywordNamed "AND".toList = true → (nestingAfter before).isOutermost = true →
        awaitsAnd Nesting.isUnbracketed before = awaitsAnd counts before := by
  have hexact := cutsExactly_isUnbracketed ts
  constructor
  · intro h before t after hts hand houter
    have hor : t.isKeywordNamed "OR".toList = false :=
      Token.isKeywordNamed_ne hand _ (by decide)
    have hiff := (hexact before t after hts).symm.trans (h before t after hts)
    rw [joinsConditions, joinsConditions, houter, hor, hand, ← Bool.eq_iff_iff] at hiff
    simpa using hiff
  · intro h before t after hts
    rw [hexact before t after hts, joinsConditions, joinsConditions]
    by_cases hand : t.isKeywordNamed "AND".toList = true
    · by_cases houter : (nestingAfter before).isOutermost = true
      · rw [h before t after hts hand houter]
      · simp only [houter, Bool.false_and]
    · simp only [hand, Bool.false_and]

theorem splitConditions_exact (ts : List Token) :
    (∃ first rest, splitConditions ts = ⟨none, first⟩ :: rest ∧ ∀ c ∈ rest, c.op.isSome = true) ∧
    (splitConditions ts).flatMap Condition.parts = ts ∧
    CutsExactly Nesting.isUnbracketed ts ∧
    (CutsExactly Nesting.isOutermost ts ↔ ∀ before t after, ts = before ++ t :: after →
      t.isKeywordNamed "AND".toList = true → (nestingAfter before).isOutermost = true →
        awaitsAnd Nesting.isUnbracketed before = awaitsAnd Nesting.isOutermost before) := by
  refine ⟨?_, splitConditions_parts ts, cutsExactly_isUnbracketed ts, cutsExactly_iff _ ts⟩
  obtain ⟨first, rest, hcs⟩ := conditionsFrom_head_op {} ts
  have hrest := conditionsFrom_tail_op {} ts
  rw [hcs] at hrest
  exact ⟨first, rest, hcs, hrest⟩

theorem splitConditions_merges :
    let word (s : String) : Token := ⟨.keyword, s.toList, 0⟩
    let name (s : String) : Token := ⟨.identifier, s.toList, 0⟩
    let chain : List Token := [word "CASE", word "WHEN", name "x", word "BETWEEN", name "y",
      word "AND", name "z", word "THEN", name "a", word "END", word "AND", name "b"]
    splitConditions chain = [⟨none, chain⟩] ∧ ¬CutsExactly Nesting.isOutermost chain := by
  intro word name chain
  refine ⟨by decide, fun h => ?_⟩
  have hsame := (cutsExactly_iff _ chain).1 h (chain.take 10) (word "AND") [name "b"] rfl
    (by decide) (by decide)
  exact absurd hsame (by decide)

end EmbeddedSql
