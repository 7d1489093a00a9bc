import EmbeddedSql.Proofs.Clause.Likeness

namespace EmbeddedSql

def ListItem.respell (f : Token → Token) (item : ListItem) : ListItem :=
  ⟨item.tokens.map f, item.comma.map f⟩

def Condition.respell (f : Token → Token) (c : Condition) : Condition :=
  ⟨c.op.map f, c.tokens.map f⟩

def Clause.respell (f : Token → Token) (c : Clause) : Clause :=
  ⟨c.kind, c.head.map f, c.body.map f⟩

namespace Layout

def Respelling (f : Token → Token) : Prop := ∀ t, Twin .upper t (f t)

namespace Respelling

variable {f : Token → Token} (hf : Respelling f)

include hf

theorem twins (ts : List Token) : List.Forall₂ (Twin .upper) ts (ts.map f) := by
  induction ts with
  | nil => exact .nil
  | cons t ts ih => exact .cons (hf t) ih

theorem alike (b : Bool) (ts : List Token) : Alike .upper b ts (ts.map f) := by
  simpa using Alike.append_twins (b := b) (hf.twins ts) .nil

theorem groupLength_map (depth : Nat) (ts : List Token) :
    groupLength depth (ts.map f) = groupLength depth ts := by
  induction ts generalizing depth with
  | nil => rfl
  | cons t ts ih =>
      simp only [List.map_cons, groupLength, (hf t).isOpening, (hf t).isClosing, ih]

theorem groupTokens_map (ts : List Token) : groupTokens (ts.map f) = (groupTokens ts).map f := by
  rw [groupTokens, groupTokens, hf.groupLength_map, List.map_take]

theorem isSubquery_map (ts : List Token) : isSubquery (ts.map f) = isSubquery ts :=
  (hf.alike true ts).isSubquery

theorem statementsFrom_map (depth : Nat) (ts : List Token) :
    statementsFrom depth (ts.map f) = (statementsFrom depth ts).map (List.map f) := by
  induction ts generalizing depth with
  | nil => rfl
  | cons t ts ih =>
      simp only [List.map_cons, statementsFrom, (hf t).depthAfter, (hf t).isPunct, ih]
      split
      · rfl
      · cases statementsFrom (Token.depthAfter depth t) ts <;> rfl

theorem itemsFrom_map (depth : Nat) (ts : List Token) :
    itemsFrom depth (ts.map f) = (itemsFrom depth ts).map (ListItem.respell f) := by
  induction ts generalizing depth with
  | nil => rfl
  | cons t ts ih =>
      simp only [List.map_cons, itemsFrom, (hf t).depthAfter, (hf t).isPunct, ih]
      split
      · rfl
      · cases itemsFrom (Token.depthAfter depth t) ts <;> rfl

theorem aliasFrom?_map (depth : Nat) (ts : List Token) :
    aliasFrom? depth (ts.map f) = aliasFrom? depth ts := by
  induction ts generalizing depth with
  | nil => rfl
  | cons t ts ih =>
      simp only [List.map_cons, aliasFrom?, (hf t).depthAfter, (hf t).isKeywordNamed, ih]

theorem conditionsFrom_map (p : ChainPosition) (ts : List Token) :
    conditionsFrom p (ts.map f) = (conditionsFrom p ts).map (Condition.respell f) := by
  induction ts generalizing p with
  | nil => rfl
  | cons t ts ih =>
      simp only [List.map_cons, conditionsFrom, (hf t).splitsAt, (hf t).next, ih]
      split
      · cases conditionsFrom p ts <;> rfl
      · cases conditionsFrom (p.next t) ts <;> rfl

theorem head?_map (previous : Option Token) (current : ClauseKind) (atStart : Bool) (t : Token)
    (ts : List Token) : Clause.head? (previous.map f) current atStart (f t) (ts.map f) =
      Clause.head? previous current atStart t ts := by
  have hprevious : AgreeKeyword previous (previous.map f) := by
    intro word
    cases previous with
    | none => rfl
    | some p => exact (hf p).isKeywordNamed word
  exact (hf.alike true ts).head? (hf t) hprevious current atStart

theorem splitFrom_map (current : ClauseKind) (atStart : Bool) (previous : Option Token)
    (depth : Nat) (ts : List Token) :
    Clause.splitFrom current atStart (previous.map f) depth (ts.map f) =
      ((Clause.splitFrom current atStart previous depth ts).1.map f,
        (Clause.splitFrom current atStart previous depth ts).2.map (Clause.respell f)) := by
  fun_induction Clause.splitFrom current atStart previous depth ts with
  | case1 => simp [Clause.splitFrom]
  | case2 current atStart previous depth t r start kind n hstart head body clauses hrest ih =>
      have hhead : (t :: r.take n).map f = f t :: (r.map f).take n := by
        rw [List.map_cons, List.map_take]
      have hstart' : (if depth = 0 && (f t).isKeyword then
          Clause.head? (previous.map f) current atStart (f t) (r.map f) else none) =
            some (kind, n) := by
        rw [(hf t).isKeyword, hf.head?_map]
        exact hstart
      rw [hrest, ← List.getLast?_map, List.map_drop] at ih
      rw [List.map_cons, Clause.splitFrom, hstart']
      dsimp only
      rw [← hhead, ih]
      rfl
  | case3 current atStart previous depth t r start hstart body clauses hrest ih =>
      have hstart' : (if depth = 0 && (f t).isKeyword then
          Clause.head? (previous.map f) current atStart (f t) (r.map f) else none) = none := by
        rw [(hf t).isKeyword, hf.head?_map]
        exact hstart
      rw [hrest, Option.map_some] at ih
      rw [List.map_cons, Clause.splitFrom, hstart']
      dsimp only
      rw [(hf t).kind, (hf t).depthAfter, ih]
      rfl

theorem splitClauses_map (ts : List Token) :
    splitClauses (ts.map f) = (splitClauses ts).map (Clause.respell f) := by
  have hsplit := hf.splitFrom_map .preamble true none 0 ts
  rw [Option.map_none] at hsplit
  unfold splitClauses
  rw [hsplit]
  generalize Clause.splitFrom .preamble true none 0 ts = parts
  obtain ⟨body, clauses⟩ := parts
  cases body <;> rfl

end Respelling

end Layout

end EmbeddedSql
