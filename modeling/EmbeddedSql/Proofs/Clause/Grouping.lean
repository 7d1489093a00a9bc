import EmbeddedSql.Proofs.Clause.Chain
import EmbeddedSql.Proofs.Clause.Likeness

namespace EmbeddedSql

theorem groupLength_lt {n depth : Nat} {ts : List Token}
    (h : ts.foldl Token.depthAfter depth = 0) (hn : 1 ≤ n) (hle : n ≤ depth) :
    groupLength n ts < ts.length := by
  induction ts generalizing n depth with
  | nil =>
      have hdepth : depth = 0 := h
      omega
  | cons t r ih =>
      rw [List.foldl_cons, Token.depthAfter] at h
      rw [groupLength, List.length_cons]
      split at h
      next hopen =>
        have hr := ih h (n := n + 1) (by omega) (by omega)
        rw [if_pos hopen]
        omega
      next hopen =>
        rw [if_neg hopen]
        split at h
        next hclose =>
          rw [if_pos hclose]
          split
          · omega
          · have hr := ih h (n := n - 1) (by omega) (by omega)
            omega
        next hclose =>
          have hr := ih h hn hle
          rw [if_neg hclose]
          omega

theorem groupLength_append {n : Nat} {ts : List Token} (h : groupLength n ts < ts.length)
    (us : List Token) : groupLength n (ts ++ us) = groupLength n ts := by
  induction ts generalizing n with
  | nil => simp at h
  | cons t r ih =>
      rw [groupLength, List.length_cons] at h
      rw [List.cons_append, groupLength, groupLength]
      split at h
      next hopen => rw [if_pos hopen, if_pos hopen, ih (by omega)]
      next hopen =>
        rw [if_neg hopen, if_neg hopen]
        split at h
        next hclose =>
          rw [if_pos hclose, if_pos hclose]
          split at h
          next hlast => rw [if_pos hlast, if_pos hlast]
          next hlast => rw [if_neg hlast, if_neg hlast, ih (by omega)]
        next hclose => rw [if_neg hclose, if_neg hclose, ih (by omega)]

theorem isClosing_of_groupLength {n : Nat} {ts rest : List Token} {close : Token}
    (h : ts.drop (groupLength n ts) = close :: rest) : close.isClosing = true := by
  induction ts generalizing n with
  | nil => simp at h
  | cons t r ih =>
      rw [groupLength] at h
      split at h
      · rw [Nat.add_comm] at h
        exact ih h
      · split at h
        next hclose =>
          split at h
          · rwa [← (List.cons.inj h).1]
          · rw [Nat.add_comm] at h
            exact ih h
        · rw [Nat.add_comm] at h
          exact ih h

def ClosesGroups (ts : List Token) : Prop :=
  ∀ before t rest, ts = before ++ t :: rest → t.isPunct '(' = true →
    groupLength 1 rest < rest.length

namespace ClosesGroups

variable {ts us : List Token}

theorem of_depth {depth : Nat} (h : ts.foldl Token.depthAfter depth = 0) : ClosesGroups ts := by
  rintro before t rest rfl hparen
  rw [List.foldl_append, List.foldl_cons] at h
  refine groupLength_lt h (Nat.le_refl 1) ?_
  simp [Token.depthAfter, Token.isOpening, hparen]

theorem of_forall (h : ∀ t ∈ ts, t.isPunct '(' = false) : ClosesGroups ts := by
  rintro before t rest rfl hparen
  rw [h t (by simp)] at hparen
  cases hparen

theorem drop (h : ClosesGroups ts) (n : Nat) : ClosesGroups (ts.drop n) := by
  intro before u rest hdrop hparen
  refine h (ts.take n ++ before) u rest ?_ hparen
  rw [List.append_assoc, ← hdrop, List.take_append_drop]

theorem append (hts : ClosesGroups ts) (hus : ClosesGroups us) : ClosesGroups (ts ++ us) := by
  intro before t rest h hparen
  rcases List.append_eq_append_iff.1 h with ⟨front, rfl, hus'⟩ | ⟨back, rfl, hrest⟩
  · exact hus front t rest hus' hparen
  · cases back with
    | nil => exact hus [] t rest hrest.symm hparen
    | cons u back =>
        rw [List.cons_append] at hrest
        obtain ⟨rfl, rfl⟩ := List.cons.inj hrest
        have hclosed := hts before t back rfl hparen
        rw [groupLength_append hclosed, List.length_append]
        omega

theorem group_append {t : Token} (h : ClosesGroups (t :: ts)) (hparen : t.isPunct '(' = true)
    (us : List Token) : groupTokens (ts ++ us) = groupTokens ts ∧
      (ts ++ us).drop (groupLength 1 (ts ++ us)) = ts.drop (groupLength 1 ts) ++ us := by
  have hclosed := h [] t ts rfl hparen
  rw [groupTokens, groupTokens, groupLength_append hclosed,
    List.take_append_of_le_length (by omega), List.drop_append_of_le_length (by omega)]
  exact ⟨rfl, rfl⟩

end ClosesGroups

theorem containsSubquery_drop {ts : List Token} (h : containsSubquery ts = false) (n : Nat) :
    containsSubquery (ts.drop n) = false := by
  induction ts generalizing n with
  | nil => rw [List.drop_nil, h]
  | cons t r ih =>
      cases n with
      | zero => exact h
      | succ n => exact ih (Bool.or_eq_false_iff.1 h).2 n

theorem ClosesGroups.containsSubquery_append {ts : List Token} (h : ClosesGroups ts)
    (us : List Token) :
    containsSubquery (ts ++ us) = (containsSubquery ts || containsSubquery us) := by
  induction ts with
  | nil => rfl
  | cons t r ih =>
      rw [List.cons_append, containsSubquery, containsSubquery, ih (h.drop 1), Bool.or_assoc]
      cases hparen : t.isPunct '(' with
      | false => rfl
      | true => rw [(h.group_append hparen us).1]

theorem containsSubquery_parts {α : Type} {parts : α → List Token} {xs : List α}
    (hclose : ∀ x ∈ xs.dropLast, ClosesGroups (parts x))
    (h : containsSubquery (xs.flatMap parts) = false) :
    ∀ x ∈ xs, containsSubquery (parts x) = false := by
  induction xs with
  | nil => simp
  | cons x xs ih =>
      cases xs with
      | nil => simpa using h
      | cons y ys =>
          rw [List.dropLast_cons_cons, List.forall_mem_cons] at hclose
          rw [List.flatMap_cons, hclose.1.containsSubquery_append] at h
          obtain ⟨hx, hrest⟩ := Bool.or_eq_false_iff.1 h
          exact List.forall_mem_cons.2 ⟨hx, ih hclose.2 hrest⟩

theorem depthAfter_of_isPunct {t : Token} {c : Char} (h : t.isPunct c = true)
    (hc : c ∉ ['(', '[', ')', ']']) (depth : Nat) : Token.depthAfter depth t = depth := by
  have htext : t.text = [c] := by simp_all [Token.isPunct]
  simp_all [Token.depthAfter, Token.isOpening, Token.isClosing, Token.isPunct]

theorem depthAfter_of_isComma {t : Token} (h : t.isPunct ',' = true) (depth : Nat) :
    Token.depthAfter depth t = depth :=
  depthAfter_of_isPunct h (by decide) depth

theorem itemsFrom_depth {depth : Nat} {ts : List Token} {item : ListItem} {items : List ListItem}
    (h : itemsFrom depth ts = item :: items) :
    (items ≠ [] → item.tokens.foldl Token.depthAfter depth = 0) ∧
      ∀ i ∈ items.dropLast, i.tokens.foldl Token.depthAfter 0 = 0 := by
  induction ts generalizing depth item items with
  | nil =>
      obtain ⟨-, rfl⟩ := List.cons.inj h
      simp
  | cons t r ih =>
      simp only [itemsFrom] at h
      split at h
      next hcut =>
        obtain ⟨hdepth, hcomma⟩ := Bool.and_eq_true_iff.1 hcut
        rw [depthAfter_of_isComma hcomma, decide_eq_true_iff] at hdepth
        rw [depthAfter_of_isComma hcomma] at h
        obtain ⟨rfl, hrest⟩ := List.cons.inj h
        refine ⟨fun _ => hdepth, ?_⟩
        cases items with
        | nil => simp
        | cons s ss =>
            subst hdepth
            obtain ⟨hfirst, htail⟩ := ih hrest
            cases ss with
            | nil => simp
            | cons u us =>
                rw [List.dropLast_cons_cons, List.forall_mem_cons]
                exact ⟨hfirst (by simp), htail⟩
      next =>
        cases hr : itemsFrom (Token.depthAfter depth t) r with
        | nil =>
            rw [hr] at h
            obtain ⟨rfl, rfl⟩ := List.cons.inj h
            simp
        | cons s ss =>
            rw [hr] at h
            obtain ⟨rfl, rfl⟩ := List.cons.inj h
            have hrest := ih hr
            rwa [← List.foldl_cons] at hrest

theorem splitList_closesGroups (ts : List Token) :
    ∀ item ∈ (splitList ts).dropLast, ClosesGroups item.tokens := by
  cases h : splitList ts with
  | nil => simp
  | cons item items =>
      obtain ⟨hfirst, hrest⟩ := itemsFrom_depth h
      cases items with
      | nil => simp
      | cons s ss =>
          rw [List.dropLast_cons_cons, List.forall_mem_cons]
          exact ⟨.of_depth (hfirst (by simp)), fun i hi => .of_depth (hrest i hi)⟩

theorem ChainPosition.next_depth (p : ChainPosition) (t : Token) :
    (p.next t).depth = Token.depthAfter p.depth t := by
  simp only [next]
  congr 1
  repeat' split
  all_goals rfl

theorem conditionsFrom_depth {p : ChainPosition} {ts : List Token} {c : Condition}
    {cs : List Condition} (h : conditionsFrom p ts = c :: cs) :
    (cs ≠ [] → c.tokens.foldl Token.depthAfter p.depth = 0) ∧
      ∀ k ∈ cs.dropLast, k.tokens.foldl Token.depthAfter 0 = 0 := by
  induction ts generalizing p c cs with
  | nil =>
      obtain ⟨-, rfl⟩ := List.cons.inj h
      simp
  | cons t r ih =>
      simp only [conditionsFrom] at h
      split at h
      next hcut =>
        have hdepth : p.depth = 0 := by simp_all [ChainPosition.splitsAt]
        obtain ⟨tokens, ks, hr⟩ := conditionsFrom_head_op p r
        rw [hr] at h
        obtain ⟨rfl, rfl⟩ := List.cons.inj h
        obtain ⟨hfirst, htail⟩ := ih hr
        refine ⟨fun _ => hdepth, ?_⟩
        cases ks with
        | nil => simp
        | cons u us =>
            rw [List.dropLast_cons_cons, List.forall_mem_cons]
            rw [hdepth] at hfirst
            exact ⟨hfirst (by simp), htail⟩
      next =>
        obtain ⟨tokens, ks, hr⟩ := conditionsFrom_head_op (p.next t) r
        rw [hr] at h
        obtain ⟨rfl, rfl⟩ := List.cons.inj h
        have hrest := ih hr
        rwa [ChainPosition.next_depth, ← List.foldl_cons] at hrest

theorem splitConditions_closesGroups (ts : List Token) :
    ∀ c ∈ (splitConditions ts).dropLast, ClosesGroups c.tokens := by
  cases h : splitConditions ts with
  | nil => simp
  | cons c cs =>
      obtain ⟨hfirst, hrest⟩ := conditionsFrom_depth h
      cases cs with
      | nil => simp
      | cons k ks =>
          rw [List.dropLast_cons_cons, List.forall_mem_cons]
          exact ⟨.of_depth (hfirst (by simp)), fun i hi => .of_depth (hrest i hi)⟩

theorem conditionsFrom_op (p : ChainPosition) (ts : List Token) :
    ∀ c ∈ conditionsFrom p ts, ∀ t ∈ c.op, t.isKeyword = true := by
  induction ts generalizing p with
  | nil => simp [conditionsFrom]
  | cons t r ih =>
      rw [conditionsFrom]
      split
      next hcut =>
        have hkey : t.isKeyword = true := by
          simp only [ChainPosition.splitsAt, Token.isKeywordNamed] at hcut
          grind
        obtain ⟨tokens, cs, hcs⟩ := conditionsFrom_head_op p r
        have hrest := ih p
        rw [hcs] at hrest ⊢
        simpa [hkey] using hrest
      next =>
        obtain ⟨tokens, cs, hcs⟩ := conditionsFrom_head_op (p.next t) r
        have hrest := ih (p.next t)
        rw [hcs] at hrest ⊢
        simpa using hrest

theorem aliasFrom?_depth {depth n : Nat} {ts : List Token} (h : aliasFrom? depth ts = some n) :
    (ts.take n).foldl Token.depthAfter depth = 0 := by
  induction ts generalizing depth n with
  | nil => simp [aliasFrom?] at h
  | cons t r ih =>
      simp only [aliasFrom?] at h
      cases hr : aliasFrom? (Token.depthAfter depth t) r with
      | some m =>
          obtain rfl : m + 1 = n := by simpa [hr] using h
          exact ih hr
      | none =>
          obtain ⟨⟨hdepth, hname⟩, rfl⟩ : (Token.depthAfter depth t = 0 ∧ _) ∧ 0 = n := by
            simpa [hr] using h
          rwa [Token.depthAfter_of_isKeywordNamed hname] at hdepth

theorem Clause.head?_text {previous : Option Token} {current kind : ClauseKind} {atStart : Bool}
    {t : Token} {r : List Token} {n : Nat}
    (h : head? previous current atStart t r = some (kind, n)) : t.text ≠ [] := by
  intro htext
  have hupper : t.text.upper = [] := by rw [htext]; rfl
  have hmodifier : joinModifiers.contains ([] : Text) = false := by decide
  rw [head?, hupper, hmodifier] at h
  simp at h

def Clause.Keyed (c : Clause) : Prop :=
  (∀ t ∈ c.head, t.isKeyword = true) ∧ ∀ t ∈ c.head.head?, t.text ≠ []

theorem splitClauses_keyed (ts : List Token) : ∀ c ∈ splitClauses ts, c.Keyed := by
  refine splitClauses_forall (fun {_ _ _ t _ _ _ _} hkey h => ⟨?_, ?_⟩) (fun _ => ⟨?_, ?_⟩) ts
  · exact List.forall_mem_cons.2 ⟨hkey, Layout.head?_keywords h⟩
  · simpa using Clause.head?_text h
  · simp
  · simp

end EmbeddedSql
