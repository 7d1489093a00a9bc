import EmbeddedSql.Literal.Binding
import EmbeddedSql.Proofs.Text.Trimming

namespace EmbeddedSql

open Text

namespace Binding

theorem isNameChar_of_isBlank {c : Char} (h : isBlank c = true) : isNameChar c = false := by
  have hcodes : c.toNat ∈ [9, 10, 11, 12, 13, 0x20, 0x85, 0xA0, 0x1680, 0x2000, 0x2001, 0x2002,
      0x2003, 0x2004, 0x2005, 0x2006, 0x2007, 0x2008, 0x2009, 0x200A, 0x2028, 0x2029, 0x202F,
      0x205F, 0x3000] := by
    simp [isBlank] at h ⊢
    omega
  have hall : ∀ n ∈ [9, 10, 11, 12, 13, 0x20, 0x85, 0xA0, 0x1680, 0x2000, 0x2001, 0x2002,
      0x2003, 0x2004, 0x2005, 0x2006, 0x2007, 0x2008, 0x2009, 0x200A, 0x2028, 0x2029, 0x202F,
      0x205F, 0x3000], isNameChar (Char.ofNat n) = false := by
    decide +kernel
  simpa using hall c.toNat hcodes

theorem isBlank_of_isNameChar {c : Char} (h : isNameChar c = true) : isBlank c = false := by
  rw [Bool.eq_false_iff]
  intro hblank
  rw [isNameChar_of_isBlank hblank] at h
  cases h

theorem isNameChar_of_isBoundary {c : Char} (h : isBoundary c = true) : isNameChar c = false := by
  simp only [isBoundary, Bool.or_eq_true, beq_iff_eq] at h
  rcases h with ((((rfl | rfl) | rfl) | rfl) | rfl) | rfl <;> decide +kernel

theorem isBoundary_of_isNameChar {c : Char} (h : isNameChar c = true) : isBoundary c = false := by
  rw [Bool.eq_false_iff]
  intro hboundary
  rw [isNameChar_of_isBoundary hboundary] at h
  cases h

theorem not_mark_of_plain {c : Char} (h : isBlank c = true ∨ isNameChar c = true) :
    c ∉ ['=', '!', '<', '>', ':', '+', '?'] := by
  have hmarks : ['=', '!', '<', '>', ':', '+', '?'].any (fun m => isBlank m || isNameChar m) =
      false := by
    decide +kernel
  intro hc
  exact List.any_eq_false.1 hmarks c hc (Bool.or_eq_true_iff.2 h)

structure IsName (n : Text) : Prop where
  chars : ∀ c ∈ n, isNameChar c = true
  first : ∃ c, n.head? = some c ∧ c.isDigit = false ∧ c ≠ '.'

/-- What a name may stand behind: nothing or a boundary, and then declaration words with blanks
behind them. -/
def Prelude (p : Text) : Prop :=
  ∃ q d, p = q ++ d ∧ (∀ c ∈ q.getLast?, isBoundary c = true) ∧
    (∀ c ∈ d, isBoundary c = false ∧ c ≠ ':' ∧ c ≠ '?') ∧ ∀ c ∈ d.getLast?, isBlank c = true

section

variable {q d n w x y : Text} {language : HostLanguage}

theorem nameBack_append (h : ∀ c ∈ x.getLast?, isNameChar c = false) (y : Text) :
    nameBack (x ++ y).reverse = nameBack y.reverse := by
  rw [nameBack, nameBack, List.reverse_append,
    takeWhile_append_of_head? (by rwa [List.head?_reverse])]

theorem nameBack_trimStart (y : Text) : nameBack (trimStart y).reverse = nameBack y.reverse := by
  have hblank : ∀ c ∈ (y.takeWhile isBlank).getLast?, isNameChar c = false := fun c hc =>
    isNameChar_of_isBlank (List.all_eq_true.1 List.all_takeWhile c (List.mem_of_getLast? hc))
  have hfront := nameBack_append hblank (trimStart y)
  rw [trimStart, List.takeWhile_append_dropWhile] at hfront
  exact hfront.symm

theorem nameBack_name (h : ∀ c ∈ n, isNameChar c = true) : nameBack n.reverse = n := by
  have hall : ∀ c ∈ n.reverse, isNameChar c = true := fun c hc => h c (List.mem_reverse.1 hc)
  rw [nameBack, List.takeWhile_eq_self_iff.2 hall, List.reverse_reverse]

theorem segmentBack_append (hq : ∀ c ∈ q.getLast?, isBoundary c = true)
    (hy : ∀ c ∈ y, isBoundary c = false) (hlast : ∀ c ∈ (q ++ y).getLast?, isBlank c = false)
    (hw : ∀ c ∈ w, isBlank c = true) : segmentBack (q ++ y ++ w).reverse = trimStart y := by
  have hblanks : ∀ c ∈ w.reverse, isBlank c = true := fun c hc => hw c (List.mem_reverse.1 hc)
  have hinner : ∀ c ∈ y.reverse, (!isBoundary c) = true := fun c hc => by
    rw [hy c (List.mem_reverse.1 hc)]
    rfl
  have hstop : ∀ c ∈ q.reverse.head?, (!isBoundary c) = false := fun c hc => by
    rw [hq c (by rwa [← List.head?_reverse])]
    rfl
  rw [segmentBack, List.reverse_append, dropWhile_run hblanks (by rwa [List.head?_reverse]),
    List.reverse_append, takeWhile_run hinner hstop, List.reverse_reverse]

def untyped (segment : Text) : Text :=
  if List.contains segment ':' then trimEnd (segment.takeWhile (· ≠ ':')) else segment

theorem untyped_of_not_mem (h : ':' ∉ x) : untyped x = x := by
  rw [untyped, if_neg]
  simpa using h

theorem untyped_annotated (hx : ':' ∉ x) (hlast : ∀ c ∈ x.getLast?, isBlank c = false) (y : Text) :
    untyped (x ++ ':' :: y) = x := by
  have htake : (x ++ ':' :: y).takeWhile (· ≠ ':') = x :=
    takeWhile_run (fun c hc => by simpa using ne_of_mem_of_not_mem hc hx) (by simp)
  rw [untyped, if_pos (by simp), htake, trimEnd, trimEndWhile_of_getLast? hlast]

theorem assignedBack?_eq {op r : Text} (hop : op ∈ [[], [':'], ['+']])
    (hr : ∀ c ∈ r.head?, isBlank c = true ∨ isNameChar c = true) :
    assignedBack? (op ++ r) = some (untyped (segmentBack r)) := by
  simp only [List.mem_cons, List.not_mem_nil, or_false] at hop
  rcases hop with rfl | rfl | rfl
  · cases r with
    | nil => rfl
    | cons c r =>
        have hc := not_mark_of_plain (hr c rfl)
        simp only [List.mem_cons, List.not_mem_nil, or_false, not_or] at hc
        obtain ⟨heq, hnot, hless, hmore, hcolon, hplus, -⟩ := hc
        simp [assignedBack?, untyped, heq, hnot, hless, hmore, hcolon, hplus]
  · rfl
  · rfl

theorem propertyBack?_eq {r : Text} (hr : ∀ c ∈ r.head?, isBlank c = true ∨ isNameChar c = true)
    (hsegment : segmentBack r = x) (hx : '?' ∉ x) : propertyBack? r = some x := by
  have hhead : (r.head?.any fun c => c == ':' || c == '?') = false := by
    cases r with
    | nil => rfl
    | cons c r =>
        have hc := not_mark_of_plain (hr c rfl)
        simp only [List.mem_cons, List.not_mem_nil, or_false, not_or] at hc
        obtain ⟨-, -, -, -, hcolon, -, hquestion⟩ := hc
        simp [hcolon, hquestion]
  rw [propertyBack?, hsegment, hhead]
  simp [hx]

theorem targetBack?_tail {g : Text} (hg : ∀ c ∈ g, isBlank c = true ∨ c = '(') (x : Text) :
    targetBack? language (x ++ g).reverse = targetBack? language x.reverse := by
  have hall : ∀ c ∈ g.reverse, (isBlank c || c == '(') = true := fun c hc => by
    simpa using hg c (List.mem_reverse.1 hc)
  rw [targetBack?, targetBack?, List.reverse_append, List.dropWhile_append_of_pos hall]

theorem targetBack?_assignment (r : Text) :
    targetBack? language ('=' :: r) = assignedBack? r := by
  rw [targetBack?, List.dropWhile_cons_of_neg (by decide)]
  rfl

theorem targetBack?_property (r : Text) : targetBack? .javaScript (':' :: r) = propertyBack? r := by
  rw [targetBack?, List.dropWhile_cons_of_neg (by decide)]
  rfl

theorem identifierBack?_name {back : Text} (h : targetBack? language back = some (x ++ n))
    (hx : ∀ c ∈ x.getLast?, isNameChar c = false) (hn : IsName n) :
    identifierBack? language back = some n := by
  obtain ⟨c, hc, hdigit, hdot⟩ := hn.first
  rw [identifierBack?, h]
  dsimp only
  rw [nameBack_append hx, nameBack_name hn.chars, hc]
  simp [hdigit, hdot]

theorem IsName.ne_nil (hn : IsName n) : n ≠ [] := by
  obtain ⟨c, hc, -, -⟩ := hn.first
  rintro rfl
  cases hc

theorem IsName.isBlank_getLast? (hn : IsName n) (x : Text) :
    ∀ c ∈ (x ++ n).getLast?, isBlank c = false := by
  intro c hc
  rw [List.getLast?_append, List.getLast?_eq_some_getLast hn.ne_nil] at hc
  obtain rfl := Option.some.inj hc
  exact isBlank_of_isNameChar (hn.chars _ (List.getLast_mem hn.ne_nil))

theorem trimStart_name (hn : IsName n) (x : Text) : trimStart (x ++ n) = trimStart x ++ n := by
  obtain ⟨c, hc, -, -⟩ := hn.first
  have hstart : ∀ c ∈ n.head?, isBlank c = false := fun c hc =>
    isBlank_of_isNameChar (hn.chars c (List.mem_of_head? hc))
  rw [trimStart, trimStart, List.dropWhile_append]
  split
  next hblank =>
    rw [List.isEmpty_iff.1 hblank]
    exact dropWhile_of_head? hstart
  next => rfl

theorem segmentBack_name (hq : ∀ c ∈ q.getLast?, isBoundary c = true)
    (hd : ∀ c ∈ d, isBoundary c = false) (hn : IsName n) (hw : ∀ c ∈ w, isBlank c = true) :
    segmentBack (q ++ (d ++ n) ++ w).reverse = trimStart d ++ n := by
  have hinner : ∀ c ∈ d ++ n, isBoundary c = false :=
    List.forall_mem_append.2 ⟨hd, fun c hc => isBoundary_of_isNameChar (hn.chars c hc)⟩
  have hlast := hn.isBlank_getLast? (q ++ d)
  rw [List.append_assoc] at hlast
  rw [segmentBack_append hq hinner hlast hw, trimStart_name hn]

theorem Prelude.segmentBack_eq {p : Text} (hp : Prelude p) (hn : IsName n)
    (hw : ∀ c ∈ w, isBlank c = true) :
    ∃ x, segmentBack (p ++ n ++ w).reverse = x ++ n ∧ (∀ c ∈ x.getLast?, isNameChar c = false) ∧
      ':' ∉ x ++ n ∧ '?' ∉ x ++ n := by
  obtain ⟨q, d, rfl, hq, hd, hlast⟩ := hp
  have hsuffix : trimStart d <:+ d := List.dropWhile_suffix isBlank
  have hmarks : isNameChar ':' = false ∧ isNameChar '?' = false := by decide +kernel
  refine ⟨trimStart d, ?_, ?_, ?_, ?_⟩
  · rw [List.append_assoc q]
    exact segmentBack_name hq (fun c hc => (hd c hc).1) hn hw
  · intro c hc
    obtain ⟨blanks, hblanks⟩ := hsuffix
    refine isNameChar_of_isBlank (hlast c ?_)
    rw [← hblanks, List.getLast?_append, Option.mem_def.1 hc]
    rfl
  · rw [List.mem_append]
    rintro (hc | hc)
    · exact (hd _ (hsuffix.subset hc)).2.1 rfl
    · simpa [hmarks] using hn.chars _ hc
  · rw [List.mem_append]
    rintro (hc | hc)
    · exact (hd _ (hsuffix.subset hc)).2.2 rfl
    · simpa [hmarks] using hn.chars _ hc

theorem head?_reverse_name (p : Text) (hn : IsName n) (hw : ∀ c ∈ w, isBlank c = true) :
    ∀ c ∈ (p ++ n ++ w).reverse.head?, isBlank c = true ∨ isNameChar c = true := by
  rw [List.head?_reverse]
  refine forall_getLast?_append (fun c hc => .inr ?_) fun c hc =>
    .inl (hw c (List.mem_of_getLast? hc))
  rw [List.getLast?_append, List.getLast?_eq_some_getLast hn.ne_nil] at hc
  exact Option.some.inj hc ▸ hn.chars _ (List.getLast_mem hn.ne_nil)

theorem assignedBack?_comparison {c : Char} (hc : c ∈ ['=', '!', '<', '>']) (r : Text) :
    assignedBack? (c :: r) = none := by
  simp only [List.mem_cons, List.not_mem_nil, or_false] at hc
  rcases hc with rfl | rfl | rfl | rfl <;> rfl

end

end Binding

open Binding

section

variable {p n w g : Text}

theorem enclosingIdentifier?_bound (hp : Prelude p) (hn : IsName n)
    (hw : ∀ c ∈ w, isBlank c = true) (hg : ∀ c ∈ g, isBlank c = true ∨ c = '(') :
    (∀ language, ∀ op ∈ ["=", ":=", "+="],
      enclosingIdentifier? language (p ++ n ++ w ++ op.toList ++ g) = some n) ∧
    enclosingIdentifier? .javaScript (p ++ n ++ w ++ ":".toList ++ g) = some n ∧
    ∀ language, ∀ op ∈ ["==", "!=", "<=", ">="],
      enclosingIdentifier? language (p ++ n ++ w ++ op.toList ++ g) = none := by
  obtain ⟨x, hsegment, hx, htype, hoptional⟩ := hp.segmentBack_eq hn hw
  have hhead := head?_reverse_name p hn hw
  have hassign : ∀ op ∈ ["=", ":=", "+="], ∃ mark ∈ [[], [':'], ['+']],
      op.toList.reverse = '=' :: mark := by decide
  have hcompare : ∀ op ∈ ["==", "!=", "<=", ">="], ∃ c ∈ ['=', '!', '<', '>'],
      op.toList.reverse = ['=', c] := by simp
  refine ⟨fun language op hop => ?_, ?_, fun language op hop => ?_⟩
  · obtain ⟨mark, hmark, hop⟩ := hassign op hop
    refine identifierBack?_name ?_ hx hn
    rw [targetBack?_tail hg, List.reverse_append, hop, List.cons_append, targetBack?_assignment,
      assignedBack?_eq hmark hhead, hsegment, untyped_of_not_mem htype]
  · refine identifierBack?_name ?_ hx hn
    rw [targetBack?_tail hg, List.reverse_append]
    exact (targetBack?_property _).trans (propertyBack?_eq hhead hsegment hoptional)
  · obtain ⟨c, hc, hop⟩ := hcompare op hop
    have htarget : targetBack? language (p ++ n ++ w ++ op.toList ++ g).reverse = none := by
      rw [targetBack?_tail hg, List.reverse_append, hop]
      exact (targetBack?_assignment _).trans (assignedBack?_comparison hc _)
    rw [enclosingIdentifier?, identifierBack?, htarget]

theorem enclosingIdentifier?_bound_declaration :
    let p := "run();\n export const ".toList
    let n := "self.größe_sql".toList
    let w := " \u3000".toList
    let g := " (\n  ".toList
    Prelude p ∧ IsName n ∧ (∀ c ∈ w, isBlank c = true) ∧ (∀ c ∈ g, isBlank c = true ∨ c = '(') ∧
      (∀ language, ∀ op ∈ ["=", ":=", "+="],
        enclosingIdentifier? language (p ++ n ++ w ++ op.toList ++ g) = some n) ∧
      enclosingIdentifier? .javaScript (p ++ n ++ w ++ ":".toList ++ g) = some n ∧
      ∀ language, ∀ op ∈ ["==", "!=", "<=", ">="],
        enclosingIdentifier? language (p ++ n ++ w ++ op.toList ++ g) = none := by
  intro p n w g
  have hp : Prelude p :=
    ⟨"run();\n".toList, " export const ".toList, by decide, by simp [isBoundary],
      by simp [isBoundary, openBrace], by simp [isBlank]⟩
  have hn : IsName n :=
    ⟨List.all_eq_true.1 (by decide +kernel), 's', by decide, by decide, by decide⟩
  have hw : ∀ c ∈ w, isBlank c = true := List.all_eq_true.1 (by decide)
  have hg : ∀ c ∈ g, isBlank c = true ∨ c = '(' := by simp [g, isBlank]
  exact ⟨hp, hn, hw, hg, enclosingIdentifier?_bound hp hn hw hg⟩

theorem targetBack?_spaced (x : Text) : targetBack? .python (x ++ " = ".toList).reverse =
    some (untyped (segmentBack (x ++ [' ']).reverse)) := by
  have hsplit : x ++ " = ".toList = x ++ [' ', '='] ++ [' '] := by simp
  have hhead : ∀ c ∈ (x ++ [' ']).reverse.head?, isBlank c = true ∨ isNameChar c = true := by
    intro c hc
    rw [List.head?_reverse, List.getLast?_concat] at hc
    obtain rfl := Option.some.inj hc
    exact .inl rfl
  have hempty : ([] : Text) ∈ [[], [':'], ['+']] := .head _
  have hleft := assignedBack?_eq hempty hhead
  have hspace : ∀ c ∈ [' '], isBlank c = true ∨ c = '(' := by simp [isBlank]
  rw [hsplit, targetBack?_tail hspace, List.reverse_append]
  rw [List.reverse_append] at hleft ⊢
  exact (targetBack?_assignment _).trans hleft

theorem segmentBack_annotated (hp : ∀ c ∈ p.getLast?, isBoundary c = true) (hn : IsName n)
    {t : Text} (ht : ∀ c ∈ t, isBoundary c = false) :
    untyped (segmentBack (p ++ n ++ ": ".toList ++ t ++ [' ']).reverse) = n := by
  -- an annotation of blanks only leaves the colon at the end of the segment
  obtain ⟨w, hw, hblank, hlast⟩ := exists_trimEnd (' ' :: t)
  generalize trimEnd (' ' :: t) = v at hw hlast
  have hsplit : p ++ n ++ ": ".toList ++ t ++ [' '] = p ++ (n ++ ':' :: v) ++ (w ++ [' ']) := by
    have hfront : p ++ n ++ ": ".toList ++ t ++ [' '] = p ++ n ++ ':' :: (' ' :: t) ++ [' '] := by
      simp
    rw [hfront, hw]
    simp
  have hcolon : isBoundary ':' = false ∧ isBlank ':' = false := by decide
  have htyped : ∀ c ∈ v, isBoundary c = false := by
    intro c hc
    have hmem : c ∈ ' ' :: t := hw ▸ List.mem_append_left w hc
    rcases List.mem_cons.1 hmem with rfl | hmem
    · rfl
    · exact ht c hmem
  have hinner : ∀ c ∈ n ++ ':' :: v, isBoundary c = false :=
    List.forall_mem_append.2 ⟨fun c hc => isBoundary_of_isNameChar (hn.chars c hc),
      List.forall_mem_cons.2 ⟨hcolon.1, htyped⟩⟩
  have hend : ∀ c ∈ (p ++ (n ++ ':' :: v)).getLast?, isBlank c = false := by
    rw [List.append_cons n, ← List.append_assoc p]
    refine forall_getLast?_append (fun c hc => ?_) hlast
    rw [← List.append_assoc, List.getLast?_concat] at hc
    exact Option.some.inj hc ▸ hcolon.2
  have hstart : ∀ c ∈ (n ++ ':' :: v).head?, isBlank c = false := by
    intro c hc
    obtain ⟨d, hd, -, -⟩ := hn.first
    rw [List.head?_append, hd] at hc
    obtain rfl := Option.some.inj hc
    exact isBlank_of_isNameChar (hn.chars _ (List.mem_of_head? hd))
  have hnot : ':' ∉ n := fun hc => not_mark_of_plain (.inr (hn.chars _ hc)) (by simp)
  have hspaces : ∀ c ∈ w ++ [' '], isBlank c = true :=
    List.forall_mem_append.2 ⟨hblank, by simp [isBlank]⟩
  rw [hsplit, segmentBack_append hp hinner hend hspaces, trimStart, dropWhile_of_head? hstart,
    untyped_annotated hnot (hn.isBlank_getLast? [])]

end

def lastName? (t : Text) : Option Text :=
  let name := nameBack (trimEnd t).reverse
  if name.head?.any fun c => !c.isDigit && c ≠ '.' then some name else none

theorem exists_last {p : Char → Bool} {t : Text} (h : t.any p = true) :
    ∃ a b e, t = a ++ b :: e ∧ p b = true ∧ ∀ c ∈ e, p c = false := by
  induction t with
  | nil => cases h
  | cons c t ih =>
      cases hany : t.any p with
      | true =>
          obtain ⟨a, b, e, rfl, hb, he⟩ := ih hany
          exact ⟨c :: a, b, e, rfl, hb, he⟩
      | false =>
          rw [List.any_cons, hany, Bool.or_false] at h
          exact ⟨[], c, t, rfl, h, fun d hd => Bool.eq_false_iff.2 (List.any_eq_false.1 hany d hd)⟩

theorem isBlank_of_isBoundary {c : Char} (h : isBoundary c = true) (hc : c ≠ '\n') :
    isBlank c = false := by
  simp only [isBoundary, Bool.or_eq_true, beq_iff_eq] at h
  rcases h with ((((rfl | rfl) | rfl) | rfl) | rfl) | rfl
  · exact absurd rfl hc
  all_goals rfl

theorem identifierBack?_cut {x a e : Text} {b : Char} (hb : isBoundary b = true) (hne : b ≠ '\n')
    (he : ∀ c ∈ e, isBoundary c = false) (htype : ':' ∉ e) :
    identifierBack? .python (x ++ (a ++ b :: e) ++ " = ".toList).reverse =
      lastName? (a ++ b :: e) := by
  obtain ⟨w, hw, hblank, hlast⟩ := exists_trimEnd e
  have hsplit : x ++ (a ++ b :: e) ++ [' '] = x ++ (a ++ [b]) ++ trimEnd e ++ (w ++ [' ']) := by
    have hpieces : a ++ b :: e = a ++ [b] ++ (trimEnd e ++ w) := by rw [← hw]; simp
    rw [hpieces]
    simp only [List.append_assoc]
  have hmem : ∀ c ∈ trimEnd e, c ∈ e := fun c hc => hw ▸ List.mem_append_left w hc
  have hstart : ∀ c ∈ (x ++ (a ++ [b])).getLast?, isBoundary c = true := by
    intro c hc
    rw [← List.append_assoc, List.getLast?_concat] at hc
    exact Option.some.inj hc ▸ hb
  have hend : ∀ c ∈ (x ++ (a ++ [b]) ++ trimEnd e).getLast?, isBlank c = false := by
    refine forall_getLast?_append (fun c hc => ?_) hlast
    rw [← List.append_assoc, List.getLast?_concat] at hc
    exact Option.some.inj hc ▸ isBlank_of_isBoundary hb hne
  have hspaces : ∀ c ∈ w ++ [' '], isBlank c = true :=
    List.forall_mem_append.2 ⟨hblank, by simp [isBlank]⟩
  have hnot : ':' ∉ trimStart (trimEnd e) := fun hc =>
    htype (hmem _ (List.dropWhile_subset isBlank hc))
  have htarget : targetBack? .python (x ++ (a ++ b :: e) ++ " = ".toList).reverse =
      some (trimStart (trimEnd e)) := by
    rw [targetBack?_spaced, hsplit, segmentBack_append hstart (fun c hc => he c (hmem c hc)) hend
      hspaces, untyped_of_not_mem hnot]
  have hname : nameBack (trimEnd (a ++ b :: e)).reverse = nameBack (trimEnd e).reverse := by
    have hstop : ∀ c ∈ (a ++ [b]).getLast?, isNameChar c = false := by
      intro c hc
      rw [List.getLast?_concat] at hc
      exact Option.some.inj hc ▸ isNameChar_of_isBoundary hb
    rw [trimEnd, trimEndWhile_append_cons (isBlank_of_isBoundary hb hne), List.append_cons]
    exact nameBack_append hstop _
  rw [identifierBack?, htarget, lastName?, hname, ← nameBack_trimStart]

section

variable {p n t : Text}

theorem enclosingIdentifier?_annotated (hp : ∀ c ∈ p.getLast?, c = '\n') (hn : IsName n)
    (ht : ∀ c ∈ t, c ≠ '\n' ∧ c ≠ ':') :
    enclosingIdentifier? .python (p ++ n ++ ": ".toList ++ t ++ " = ".toList) =
      if t.any isBoundary then lastName? t else some n := by
  split
  next hany =>
    -- the last boundary hides the colon, and with it the name
    obtain ⟨a, b, e, rfl, hb, he⟩ := exists_last hany
    refine identifierBack?_cut hb (ht b (by simp)).1 he ?_
    exact fun hc => (ht ':' (by simp [hc])).2 rfl
  next hany =>
    have hplain : ∀ c ∈ t, isBoundary c = false := fun c hc =>
      Bool.eq_false_iff.2 (List.any_eq_false.1 (Bool.eq_false_iff.2 hany) c hc)
    have hstart : ∀ c ∈ p.getLast?, isBoundary c = true := by
      rintro c hc
      rw [hp c hc]
      rfl
    refine identifierBack?_name (x := []) ?_ (by simp) hn
    rw [targetBack?_spaced, segmentBack_annotated hstart hn hplain]
    rfl

theorem enclosingIdentifier?_annotated_union :
    let p := "import db\n".toList
    let n := "self.sql".toList
    let t := "Mapping[str, List[int]] | Query".toList
    (∀ c ∈ p.getLast?, c = '\n') ∧ IsName n ∧ (∀ c ∈ t, c ≠ '\n' ∧ c ≠ ':') ∧
      enclosingIdentifier? .python (p ++ n ++ ": ".toList ++ t ++ " = ".toList) =
        some "Query".toList := by
  intro p n t
  have hp : ∀ c ∈ p.getLast?, c = '\n' := by simp [p]
  have hn : IsName n := ⟨List.all_eq_true.1 (by decide), 's', by decide, by decide, by decide⟩
  have ht : ∀ c ∈ t, c ≠ '\n' ∧ c ≠ ':' := by simp [t]
  exact ⟨hp, hn, ht, (enclosingIdentifier?_annotated hp hn ht).trans (by decide)⟩

def isBalanced (awaited : Text) : Text → Bool
  | [] => awaited.isEmpty
  | c :: r =>
      if c == '(' then isBalanced (')' :: awaited) r
      else if c == '[' then isBalanced (']' :: awaited) r
      else if c == openBrace then isBalanced (closeBrace :: awaited) r
      else if c == ')' || c == ']' || c == closeBrace then
        awaited.head? == some c && isBalanced awaited.tail r
      else isBalanced awaited r

theorem enclosingIdentifier?_subscripted :
    let n := "sql".toList
    let t := "Optional[str]".toList
    IsName n ∧ isBalanced [] t = true ∧ (∀ c ∈ t, c ∉ ['\n', ';', '=', ':']) ∧
      enclosingIdentifier? .python (n ++ ": ".toList ++ t ++ " = ".toList) = none := by
  intro n t
  have hn : IsName n := ⟨List.all_eq_true.1 (by decide), 's', by decide, by decide, by decide⟩
  exact ⟨hn, by decide, by simp [t], by decide⟩

end

end EmbeddedSql
