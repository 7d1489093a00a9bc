import Mathlib.Logic.Relation
import EmbeddedSql.Proofs.Layout.Rereading
import EmbeddedSql.Proofs.Token.Ending

namespace EmbeddedSql.Layout

open Text Lexer Relation

variable {v : Vocabulary}

/-- The second list is the first with each token put together with those that merge with it. Tokens
are put together from the right, and `previous` stands before them. -/
inductive Fused : Option Token → List Token → List Token → Prop
  | nil {previous : Option Token} : Fused previous [] []
  | keep {previous : Option Token} {t : Token} {ts fs : List Token} : Fused (some t) ts fs →
      (∀ u ∈ fs.head?, merges (isUnary t previous) t u = false) → Fused previous (t :: ts) (t :: fs)
  | join {previous : Option Token} {t u q : Token} {ts fs : List Token} :
      Fused (some t) ts (u :: fs) → merges (isUnary t previous) t u = true →
      Joined (allowsSign previous) t u q → Fused previous (t :: ts) (q :: fs)

theorem joined_of_merges {previous : Option Token} {t u : Token}
    (h : merges (isUnary t previous) t u = true) (hcolon : t.isPunct ':' = true → isCast u = false)
    (hu : u.text ≠ []) :
    Joined (allowsSign previous) t u ⟨t.kind, t.text ++ u.text, t.offset⟩ := by
  have hsign (hunary : isUnary t previous = true) :
      isSign t = true ∧ allowsSign previous = true ∧ t.kind = .operator := by
    rw [isUnary_eq] at hunary
    obtain ⟨hsign, hallowed⟩ := Bool.and_eq_true_iff.1 hunary
    exact ⟨hsign, hallowed, (isSign_iff.1 hsign).1⟩
  simp only [merges, Bool.or_eq_true, Bool.and_eq_true, decide_eq_true_eq, beq_iff_eq] at h
  rcases h with ((⟨⟨ht, hlast⟩, hkind⟩ | ⟨⟨⟨hunary, -⟩, hkind⟩, hhead⟩) |
    ⟨⟨⟨hunary, -⟩, hkind⟩, hhead⟩) | ⟨ht, hcast⟩
  · exact .name ht hkind hlast hu ht rfl
  · obtain ⟨hsign, hallowed, ht⟩ := hsign hunary
    exact .sign hallowed hsign hkind (.inl hhead) ht rfl
  · obtain ⟨hsign, hallowed, ht⟩ := hsign hunary
    exact .sign hallowed hsign hkind (.inr hhead) ht rfl
  · simp [hcolon ht] at hcast

theorem anyMerges_congr {previous previous' : Option Token}
    (h : allowsSign previous' = allowsSign previous) (ts : List Token) :
    anyMerges previous' ts = anyMerges previous ts := by
  match ts with
  | [] => rfl
  | [_] => rfl
  | p :: t :: ts => rw [anyMerges, anyMerges, isUnary_eq, isUnary_eq, h]

theorem merges_of_joined {b unary unary' : Bool} {p u q x : Token} (hj : Joined b p u q)
    (hunary : unary = false) (h : merges unary' u x = false) : merges unary q x = false := by
  have hname : (decide (q.kind = .identifier) && q.text.getLast? == some '.') =
      (decide (u.kind = .identifier) && u.text.getLast? == some '.') := by
    rw [hj.likeLast.kind]
    by_cases hkind : u.kind = .identifier
    · rw [hj.likeLast.point hkind]
    · simp [hkind]
  simp only [merges, Bool.or_eq_false_iff] at h ⊢
  rw [hunary, hname, hj.plain.2.2.isPunct]
  exact ⟨⟨⟨h.1.1.1, by simp⟩, by simp⟩, by simp⟩

def completesArrow (unary : Bool) (p t : Token) : Bool :=
  unary && p.text == ['-'] && t.kind = .operator && t.text == ['>', '=']

def splitsArrow : Option Token → List Token → Bool
  | previous, p :: t :: r =>
      completesArrow (isUnary p previous) p t || splitsArrow (some p) (t :: r)
  | _, _ => false

def isSplitArrow (t : Token) : Bool := t.kind = .operator && t.text == ['-', '>', '=']

theorem Joined.isSplitArrow_eq_false {b : Bool} {p u q : Token} (h : Joined b p u q) :
    isSplitArrow p = false ∧ isSplitArrow u = false := by
  cases h with
  | name hp hu _ _ _ _ => simp [isSplitArrow, hp, hu]
  | sign _ hp _ hhead _ _ =>
      constructor
      · rcases (isSign_iff.1 hp).2 with hp | hp | hp <;> simp [isSplitArrow, hp]
      · rw [Bool.eq_false_iff]
        intro harrow
        have htext : u.text = ['-', '>', '='] := by simp_all [isSplitArrow]
        simp [htext] at hhead

theorem sign_of_merges {unary : Bool} {p u : Token} (h : merges unary p u = true)
    (hkind : p.kind = .operator) : (p.text = ['-'] ∧ u.text.head? = some '>') ∨
      (p.text = ['~'] ∧ u.text.head? = some '*') := by
  simp only [merges, Bool.or_eq_true, Bool.and_eq_true, decide_eq_true_eq, beq_iff_eq,
    Token.isPunct, hkind, reduceCtorEq, false_and, false_or, or_false] at h
  exact h.imp (fun h => ⟨h.1.1.2, h.2⟩) fun h => ⟨h.1.1.2, h.2⟩

theorem merges_of_completesArrow {unary : Bool} {p u : Token}
    (h : completesArrow unary p u = true) : merges unary p u = true := by
  simp only [completesArrow, Bool.and_eq_true, decide_eq_true_eq, beq_iff_eq] at h
  obtain ⟨⟨⟨hunary, hp⟩, hkind⟩, htext⟩ := h
  simp [merges, hunary, hp, hkind, htext]

theorem isSplitArrow_of_merges {previous : Option Token} {p u q : Token}
    (h : merges (isUnary p previous) p u = true) (hj : Joined (allowsSign previous) p u q) :
    isSplitArrow q = completesArrow (isUnary p previous) p u := by
  cases hj with
  | name _ hu _ _ hq _ => simp [isSplitArrow, completesArrow, hu, hq]
  | sign hallowed hsign hu _ hq htext =>
      have hunary : isUnary p previous = true := by rw [isUnary_eq, hsign, hallowed, Bool.and_self]
      rcases sign_of_merges h (isSign_iff.1 hsign).1 with ⟨hp, -⟩ | ⟨hp, -⟩ <;>
        simp [isSplitArrow, completesArrow, hunary, hu, hq, htext, hp]

theorem isSplitArrow_of_readsToken {t : Token} {rest : Text} (h : ReadsToken v t rest) :
    isSplitArrow t = false := by
  rw [Bool.eq_false_iff]
  intro harrow
  obtain ⟨hkind, htext⟩ : t.kind = .operator ∧ t.text = ['-', '>', '='] := by
    simpa [isSplitArrow] using harrow
  rcases h.word_or_other with ⟨-, htoken⟩ | ⟨hreads, -⟩
  · exact absurd (ReadsToken.word_kind htoken) (by simp [hkind])
  · rw [htext, reads_cons] at hreads
    have hlexeme : lexeme '-' ('>' :: '=' :: rest) = (.operator, 1) := rfl
    simp [hlexeme] at hreads

theorem tokensFrom_splitArrow (n : Nat) (x : Text) :
    ∃ w ts, tokensFrom v n ('-' :: '>' :: '=' :: x) = ⟨.operator, ['-', '>'], n⟩ :: w :: ts ∧
      w.kind = .operator ∧ w.text.head? = some '=' := by
  have harrow : Reads .operator ['-', '>'] ('=' :: x) := ⟨_, _, rfl, rfl⟩
  exact ⟨_, _, (tokensFrom_reads harrow n).trans (congrArg _ (tokensFrom_cons _ '=' x)), rfl, rfl⟩

namespace Fused

variable {previous : Option Token} {ts fs : List Token}

theorem head {t f : Token} (h : Fused previous (t :: ts) (f :: fs)) :
    f = t ∨ ∃ u, Joined (allowsSign previous) t u f := by
  cases h with
  | keep _ _ => exact .inl rfl
  | join _ _ hj => exact .inr ⟨_, hj⟩

theorem forall_mem {P : Token → Prop} (h : Fused previous ts fs)
    (hjoin : ∀ {previous t u q}, merges (isUnary t previous) t u = true →
      Joined (allowsSign previous) t u q → P t → P u → P q)
    (hts : ∀ t ∈ ts, P t) : ∀ f ∈ fs, P f := by
  induction h with
  | nil => simp
  | keep _ _ ih =>
      rw [List.forall_mem_cons] at hts ⊢
      exact ⟨hts.1, ih hts.2⟩
  | join _ hmerge hj ih =>
      rw [List.forall_mem_cons] at hts ⊢
      obtain ⟨hu, hrest⟩ := List.forall_mem_cons.1 (ih hts.2)
      exact ⟨hjoin hmerge hj hts.1 hu, hrest⟩

theorem text_ne_nil (h : Fused previous ts fs) (hts : ∀ t ∈ ts, t.text ≠ []) :
    ∀ f ∈ fs, f.text ≠ [] := by
  refine h.forall_mem (fun _ hj ht _ => ?_) hts
  rw [hj.text]
  simp [ht]

theorem isSignificant (h : Fused previous ts fs) (hts : ∀ t ∈ ts, t.isSignificant = true) :
    ∀ f ∈ fs, f.isSignificant = true := by
  refine h.forall_mem (fun _ hj ht _ => ?_) hts
  rwa [Token.isSignificant, hj.likeNext.kind]

theorem begun (h : Fused previous ts fs) (hts : ∀ t ∈ ts, Begun t) : ∀ f ∈ fs, Begun f := by
  refine h.forall_mem (fun {_ t _ q} _ hj ht _ => ?_) hts
  have hhead : q.text.head? = t.text.head? := by
    rw [hj.text, List.head?_append_of_ne_nil _ ht.text_ne_nil]
  have hkind := hj.likeNext.kind
  refine ⟨?_, ?_, ?_, ?_⟩
  · rw [hj.text]
    simp [ht.text_ne_nil]
  · rw [hhead]
    exact ht.solid
  · rw [hhead, hkind]
    exact ht.operator
  · rw [hhead, hkind]
    exact ht.word

theorem exists_fused (previous : Option Token) {ts : List Token} (hts : ∀ t ∈ ts, t.text ≠ [])
    (hcolon : ts.IsChain fun p t => p.isPunct ':' = true → isCast t = false) :
    ∃ fs, Fused previous ts fs := by
  induction ts generalizing previous with
  | nil => exact ⟨[], .nil⟩
  | cons t ts ih =>
      have hrest : ∀ u ∈ ts, u.text ≠ [] := fun u hu => hts u (by simp [hu])
      obtain ⟨fs, hfs⟩ := ih (some t) hrest hcolon.tail
      cases fs with
      | nil => exact ⟨[t], .keep hfs (by simp)⟩
      | cons u fs =>
          cases hmerge : merges (isUnary t previous) t u with
          | false => exact ⟨t :: u :: fs, .keep hfs (by simpa using hmerge)⟩
          | true =>
              have hcast : t.isPunct ':' = true → isCast u = false := by
                intro hpunct
                cases ts with
                | nil => cases hfs
                | cons x ts =>
                    rcases hfs.head with rfl | ⟨y, hj⟩
                    · exact (List.isChain_cons_cons.1 hcolon).1 hpunct
                    · exact hj.isCast_eq_false.2.2
              have hu := hfs.text_ne_nil hrest u (by simp)
              exact ⟨_, .join hfs hmerge (joined_of_merges hmerge hcast hu)⟩

theorem alike (case : KeywordCase) (h : Fused previous ts fs) :
    ReflTransGen (Alike case (allowsSign previous)) ts fs := by
  have hcons {t : Token} {us us' : List Token} {b : Bool}
      (h : ReflTransGen (Alike case (allowsSign (some t))) us us') :
      ReflTransGen (Alike case b) (t :: us) (t :: us') :=
    h.lift (t :: ·) fun _ _ hstep => .twin (.refl t) hstep
  induction h with
  | nil => exact .refl
  | keep _ _ ih => exact hcons ih
  | join _ _ hj ih => exact (hcons ih).tail (.joined hj (.refl _ _))

theorem eq_of_alike {α : Type} {f : List Token → α} (case : KeywordCase)
    (hf : ∀ {us qs : List Token}, Alike case true us qs → f qs = f us) (h : Fused none ts fs) :
    f fs = f ts := by
  have hsteps : ∀ {us}, ReflTransGen (Alike case true) ts us → f us = f ts := by
    intro us hus
    induction hus with
    | refl => rfl
    | tail _ hstep ih => rw [hf hstep, ih]
  exact hsteps (h.alike case)

theorem anyMerges_eq_false (h : Fused previous ts fs) : anyMerges previous fs = false := by
  induction h with
  | nil => rfl
  | @keep previous t ts fs _ hmerge ih =>
      cases fs with
      | nil => rfl
      | cons u fs => exact Bool.or_eq_false_iff.2 ⟨hmerge u (by simp), ih⟩
  | @join previous t u q ts fs _ _ hj ih =>
      cases fs with
      | nil => rfl
      | cons x fs =>
          obtain ⟨hux, hrest⟩ := Bool.or_eq_false_iff.1 ih
          have hunary : isUnary q previous = false := by
            rw [isUnary_eq, hj.isSign_whole, Bool.false_and]
          refine Bool.or_eq_false_iff.2 ⟨merges_of_joined hj hunary hux, ?_⟩
          rw [anyMerges_congr hj.likeLast.allowsSign]
          exact hrest

theorem concat {x : Token} (h : Fused previous (ts ++ [x]) fs) (hx : ¬ IsPlain x) :
    ∃ fs', fs = fs' ++ [x] ∧ Fused previous ts fs' := by
  induction ts generalizing previous fs with
  | nil =>
      cases h with
      | keep hrest _ =>
          cases hrest
          exact ⟨[], rfl, .nil⟩
      | join hrest _ _ => cases hrest
  | cons t ts ih =>
      cases h with
      | keep hrest hmerge =>
          obtain ⟨fs', rfl, hfs'⟩ := ih hrest
          refine ⟨t :: fs', rfl, .keep hfs' fun u hu => hmerge u ?_⟩
          cases fs' with
          | nil => simp at hu
          | cons y fs' => simpa using hu
      | @join _ _ u q _ us hrest hmerge hj =>
          obtain ⟨fs', heq, hfs'⟩ := ih hrest
          cases fs' with
          | nil =>
              obtain ⟨rfl, -⟩ := List.cons.inj heq
              exact absurd hj.plain.2.1 hx
          | cons y fs' =>
              obtain ⟨rfl, rfl⟩ := List.cons.inj heq
              exact ⟨q :: fs', rfl, .join hfs' hmerge hj⟩

theorem closed (h : Fused previous ts fs) (hts : ∀ t ∈ ts, Closed v t) :
    ∀ f ∈ fs, Closed v f ∨ isSplitArrow f = true := by
  refine h.forall_mem (fun {previous t u q} hmerge hj ht hu => ?_) fun t ht => .inl (hts t ht)
  obtain ⟨harrow, harrow'⟩ := hj.isSplitArrow_eq_false
  have ht : Closed v t := ht.resolve_right (by simp [harrow])
  have hu : Closed v u := hu.resolve_right (by simp [harrow'])
  cases hj with
  | name hkind hkind' hpoint _ hq htext =>
      exact .inl (Closed.join_name ht hu hkind hkind' hpoint hq htext)
  | sign _ hsign hkind hhead hq htext =>
      rcases sign_of_merges hmerge (isSign_iff.1 hsign).1 with ⟨ht', hhead⟩ | ⟨ht', hhead⟩
      · rcases hu.text_of_head.1 hhead with hu' | hu'
        · refine .inl (.of_operator hq ?_)
          rw [htext, ht', hu']
          exact ⟨_, _, rfl, rfl⟩
        · refine .inr ?_
          simp [isSplitArrow, hq, htext, ht', hu']
      · refine .inl (.of_operator hq ?_)
        rw [htext, ht', hu.text_of_head.2 hhead]
        exact ⟨_, _, rfl, rfl⟩

theorem ending (h : Fused previous ts fs) (hts : Legible v ts) :
    ((∀ t ∈ ts, Closed v t) ∧ ∀ f ∈ fs, Closed v f ∨ isSplitArrow f = true) ∨
      ∃ fs' t, fs = fs' ++ [t] ∧ ts.getLast? = some t ∧ Open v t ∧
        ∀ f ∈ fs', Closed v f ∨ isSplitArrow f = true := by
  rcases List.eq_nil_or_concat ts with rfl | ⟨init, t, rfl⟩
  · cases h
    simp
  · rw [List.concat_eq_append] at h hts ⊢
    have hinit : ∀ t ∈ init, Closed v t := by simpa using hts.closed
    rcases hts.ending t (by simp) with hclosed | hopen
    · have hall : ∀ u ∈ init ++ [t], Closed v u := by
        intro u hu
        rcases List.mem_append.1 hu with hu | hu
        · exact hinit u hu
        · rwa [List.mem_singleton.1 hu]
      exact .inl ⟨hall, h.closed hall⟩
    · have hplain : ¬ IsPlain t := by
        rcases hopen.kind with hkind | hkind <;> simp [IsPlain, hkind]
      obtain ⟨fs', rfl, hfused⟩ := h.concat hplain
      exact .inr ⟨fs', t, rfl, by simp, hopen, hfused.closed hinit⟩

theorem closed_dropLast (h : Fused previous ts fs) (hts : Legible v ts) :
    ∀ f ∈ fs.dropLast, Closed v f ∨ isSplitArrow f = true := by
  rcases h.ending hts with ⟨-, hclosed⟩ | ⟨fs', t, rfl, -, -, hclosed⟩
  · exact fun f hf => hclosed f (List.dropLast_subset fs hf)
  · simpa using hclosed

theorem completesArrow_head {t u : Token} (h : Fused previous (t :: ts) (u :: fs)) (unary : Bool)
    (p : Token) : completesArrow unary p u = completesArrow unary p t := by
  have hno {x : Token} (hx : x.kind = .identifier ∨ x.text.head? ≠ some '>') :
      completesArrow unary p x = false := by
    rw [Bool.eq_false_iff]
    intro harrow
    have harrow : x.kind = .operator ∧ x.text = ['>', '='] := by simp_all [completesArrow]
    rcases hx with hx | hx
    · simp [hx] at harrow
    · simp [harrow.2] at hx
  rcases h.head with rfl | ⟨y, hj⟩
  · rfl
  · cases hj with
    | name ht _ _ _ hu _ => rw [hno (.inl ht), hno (.inl hu)]
    | sign _ ht _ _ _ htext =>
        have hhead : t.text.head? ≠ some '>' ∧ u.text.head? ≠ some '>' := by
          rcases (isSign_iff.1 ht).2 with ht | ht | ht <;> simp [htext, ht]
        rw [hno (.inr hhead.1), hno (.inr hhead.2)]

theorem any_isSplitArrow (h : Fused previous ts fs) (hts : ∀ t ∈ ts, isSplitArrow t = false) :
    fs.any isSplitArrow = splitsArrow previous ts := by
  have hnext {previous : Option Token} {t u : Token} {ts fs : List Token}
      (h : Fused (some t) ts (u :: fs)) : splitsArrow previous (t :: ts) =
        (completesArrow (isUnary t previous) t u || splitsArrow (some t) ts) := by
    cases ts with
    | nil => cases h
    | cons x ts => rw [h.completesArrow_head, splitsArrow]
  induction h with
  | nil => rfl
  | @keep previous t ts fs hrest hmerge ih =>
      rw [List.forall_mem_cons] at hts
      rw [List.any_cons, hts.1, Bool.false_or, ih hts.2]
      cases fs with
      | nil =>
          cases hrest
          rfl
      | cons u fs =>
          have hno : completesArrow (isUnary t previous) t u = false := by
            rw [Bool.eq_false_iff]
            intro harrow
            have hmerge := hmerge u (by simp)
            rw [merges_of_completesArrow harrow] at hmerge
            simp at hmerge
          rw [hnext hrest, hno, Bool.false_or]
  | @join previous t u q ts fs hrest hmerge hj ih =>
      rw [List.forall_mem_cons] at hts
      have hany := ih hts.2
      rw [List.any_cons, hj.isSplitArrow_eq_false.2, Bool.false_or] at hany
      rw [List.any_cons, hany, hnext hrest, isSplitArrow_of_merges hmerge hj]

end Fused

end EmbeddedSql.Layout
