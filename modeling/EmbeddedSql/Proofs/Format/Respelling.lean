import EmbeddedSql.Proofs.Layout.Respelling

namespace EmbeddedSql.Layout

open Text

def gapsOf : List (Text ⊕ Token) → List Text
  | [] => [[]]
  | .inl g :: ms => (gapsOf ms).modifyHead (g ++ ·)
  | .inr _ :: ms => [] :: gapsOf ms

def weave : (gaps texts : List Text) → Text
  | g :: gaps, t :: texts => g ++ t ++ weave gaps texts
  | gaps, _ => gaps.flatten

theorem weave_modifyHead {gaps : List Text} (hgaps : gaps ≠ []) (g : Text) (texts : List Text) :
    weave (gaps.modifyHead (g ++ ·)) texts = g ++ weave gaps texts := by
  cases gaps with
  | nil => exact absurd rfl hgaps
  | cons h gaps => cases texts <;> simp [weave]

theorem length_gapsOf (ms : List (Text ⊕ Token)) :
    (gapsOf ms).length = (ms.filterMap Sum.getRight?).length + 1 := by
  induction ms with
  | nil => rfl
  | cons m ms ih => cases m <;> simp [gapsOf, ih, List.filterMap_cons]

theorem weave_gapsOf (case : KeywordCase) (ms : List (Text ⊕ Token)) :
    weave (gapsOf ms) ((ms.filterMap Sum.getRight?).map (casedText case)) =
      ms.flatMap (markText case) := by
  induction ms with
  | nil => rfl
  | cons m ms ih =>
      cases m with
      | inl g =>
          have hgaps : gapsOf ms ≠ [] := by
            intro hnil
            simpa [hnil] using length_gapsOf ms
          exact (weave_modifyHead hgaps g _).trans (congrArg (g ++ ·) ih)
      | inr t => exact congrArg (casedText case t ++ ·) ih

theorem gapsOf_map (f : Token → Token) (ms : List (Text ⊕ Token)) :
    gapsOf (ms.map (Sum.map id f)) = gapsOf ms := by
  induction ms with
  | nil => rfl
  | cons m ms ih => cases m <;> simp [gapsOf, ih]

theorem gapsOf_blank {ms : List (Text ⊕ Token)} {P : Char → Prop}
    (h : ∀ g, .inl g ∈ ms → ∀ c ∈ g, P c) : ∀ g ∈ gapsOf ms, ∀ c ∈ g, P c := by
  induction ms with
  | nil => simp [gapsOf]
  | cons m ms ih =>
      have hrest := ih fun g hg => h g (by simp [hg])
      cases m with
      | inl g =>
          rw [gapsOf]
          cases hgaps : gapsOf ms with
          | nil => simp
          | cons k gaps =>
              rw [hgaps] at hrest
              simp only [List.modifyHead_cons, List.mem_cons, forall_eq_or_imp,
                List.mem_append] at hrest ⊢
              refine ⟨?_, hrest.2⟩
              rintro c (hc | hc)
              · exact h g (by simp) c hc
              · exact hrest.1 c hc
      | inr t => simpa [gapsOf] using hrest

theorem Writer.marks_blank (o : LayoutOptions) (w : Writer) {g : Text} (hg : .inl g ∈ w.marks o) :
    ∀ c ∈ g, c = ' ' ∨ c = '\n' := by
  have hspaces (n : Nat) : ∀ c ∈ spaces n, c = ' ' ∨ c = '\n' :=
    fun c hc => .inl (List.eq_of_mem_replicate hc)
  have hline (l : Line) (hg : .inl g ∈ l.marks) : ∀ c ∈ g, c = ' ' ∨ c = '\n' := by
    obtain ⟨p, -, hp⟩ := List.mem_map.1 hg
    cases p with
    | spaces n =>
        obtain rfl : spaces n = g := Sum.inl.inj hp
        exact hspaces n
    | token t => cases hp
  obtain ⟨l, -, hl⟩ := List.mem_flatMap.1 hg
  split at hl
  · exact hline l hl
  · simp only [List.cons_append, List.mem_cons, List.mem_append, List.not_mem_nil, or_false] at hl
    rcases hl with hg | hg | hg
    · obtain rfl := Sum.inl.inj hg
      exact hspaces _
    · exact hline l hg
    · obtain rfl := Sum.inl.inj hg
      simp

def Writer.tokens (w : Writer) : List Token :=
  (w.finished ++ w.current.toList).flatMap fun l => l.marks.filterMap Sum.getRight?

namespace Writer

theorem marks_tokens (o : LayoutOptions) (w : Writer) :
    (w.marks o).filterMap Sum.getRight? = w.tokens := by
  unfold marks tokens
  rw [List.filterMap_flatMap]
  refine List.flatMap_congr fun l _ => ?_
  split <;> simp [List.filterMap_cons]

theorem tokens_newline (w : Writer) (depth : Nat) : (w.newline depth).tokens = w.tokens := by
  unfold newline tokens
  split
  · rfl
  · cases hw : w.current with
    | none => simp [Line.marks]
    | some l =>
        dsimp only
        split <;> simp [Line.marks]

theorem tokens_push (w : Writer) (t : Token) : (w.push t).tokens = w.tokens ++ [t] := by
  have hsettle : w.settle.tokens = w.tokens := by
    unfold settle
    split
    · exact tokens_newline w _
    · rfl
  have hcurrent (w : Writer) : w.tokens = w.finished.flatMap (fun l =>
      l.marks.filterMap Sum.getRight?) ++ (w.current.getD {}).marks.filterMap Sum.getRight? := by
    unfold tokens
    cases w.current <;> simp [Line.marks]
  rw [← hsettle, hcurrent w.settle, hcurrent (w.push t)]
  unfold push
  dsimp only [Option.getD_some]
  split <;> simp [Line.marks, Line.push, Piece.mark, List.filterMap_cons]

theorem tokens_padTo (w : Writer) (n : Nat) : (w.padTo n).tokens = w.tokens := by
  rcases padTo_eq w n with h | ⟨l, k, hl, -, h⟩
  · rw [h]
  · rw [h]
    simp [tokens, hl, Line.marks, Line.push, Piece.mark]

end Writer

theorem Writes.tokens {w w' : Writer} {ts : List Token} (h : Writes w ts w') :
    w'.tokens = w.tokens ++ ts := by
  induction h with
  | refl => exact (List.append_nil _).symm
  | push t _ ih => rw [Writer.tokens_push, ih, List.append_assoc]
  | padded n t _ _ _ ih => rw [Writer.tokens_push, Writer.tokens_padTo, ih, List.append_assoc]
  | newline d _ _ ih => rw [Writer.tokens_newline, ih]
  | continuation d _ ih => exact ih
  | parenSpace on _ ih => exact ih

def layoutGaps (o : LayoutOptions) (ts : List Token) : List Text :=
  gapsOf ((layoutWriter o (splitStatements (ts.filter Token.isSignificant))).marks o)

section

variable (o : LayoutOptions) (ts : List Token)

theorem layoutWriter_tokens :
    ((layoutWriter o (splitStatements (ts.filter Token.isSignificant))).marks o).filterMap
      Sum.getRight? = ts.filter Token.isSignificant := by
  obtain ⟨inline, hwrites⟩ :=
    layoutWriter_writes o (splitStatements (ts.filter Token.isSignificant))
  rw [Writer.marks_tokens, hwrites.tokens, splitStatements_flatten]
  rfl

theorem length_layoutGaps :
    (layoutGaps o ts).length = (ts.filter Token.isSignificant).length + 1 := by
  rw [layoutGaps, length_gapsOf, layoutWriter_tokens]

theorem layoutGaps_blank : ∀ g ∈ layoutGaps o ts, ∀ c ∈ g, c = ' ' ∨ c = '\n' :=
  gapsOf_blank fun _ hg => Writer.marks_blank o _ hg

theorem format_eq_weave : format o ts = weave (layoutGaps o ts)
    ((ts.filter Token.isSignificant).map (casedText o.keywordCase)) := by
  rw [format_eq_finish, Writer.finish_eq_marks, ← weave_gapsOf, layoutWriter_tokens]
  rfl

end

structure SameSpelling (t q : Token) : Prop where
  kind : q.kind = t.kind
  text : if t.isKeyword then equalsIgnoringCase t.text q.text = true else q.text = t.text

def canonical (t : Token) : Token := ⟨t.kind, if t.isKeyword then t.text.upper else t.text, 0⟩

theorem canonical_respelling : Respelling canonical := by
  intro t
  have hupper : t.text.upper.upper = t.text.upper := by
    simp [upper, Function.comp_def, toUpper_toUpper]
  by_cases hkey : t.kind = .keyword
  · refine ⟨rfl, ?_, fun h => absurd hkey h, ?_⟩
    · simpa [canonical, Token.isKeyword, hkey] using hupper
    · simpa [canonical, Token.isKeyword, hkey, casedText] using hupper
  · have htext : (canonical t).text = t.text := by simp [canonical, Token.isKeyword, hkey]
    refine ⟨rfl, congrArg upper htext, fun _ => htext, ?_⟩
    have hkey' : (canonical t).kind ≠ .keyword := hkey
    rw [casedText_other _ hkey, casedText_other _ hkey', htext]

namespace SameSpelling

variable {t q : Token} (h : SameSpelling t q)

include h

theorem lower_eq (hkey : t.isKeyword = true) : q.text.lower = t.text.lower := by
  have htext := h.text
  rw [if_pos hkey] at htext
  exact (beq_iff_eq.1 htext).symm

theorem upper_eq (hkey : t.isKeyword = true) : q.text.upper = t.text.upper := by
  have hupper (s : Text) : s.upper = s.lower.upper := by
    simp [upper, lower, Function.comp_def, toUpper_toLower]
  rw [hupper, h.lower_eq hkey, ← hupper]

theorem canonical_eq : canonical q = canonical t := by
  unfold canonical
  have hkind : q.isKeyword = t.isKeyword := by rw [Token.isKeyword, Token.isKeyword, h.kind]
  have htext := h.text
  rw [hkind, h.kind]
  split
  next hkey => rw [h.upper_eq hkey]
  next hkey =>
    rw [if_neg hkey] at htext
    rw [htext]

theorem casedText_eq {case : KeywordCase} (hcase : case ≠ .preserve) :
    casedText case q = casedText case t := by
  by_cases hkey : t.kind = .keyword
  · have hnamed : t.isKeyword = true := by simpa [Token.isKeyword] using hkey
    cases case with
    | upper => simpa [casedText, h.kind, hkey] using h.upper_eq hnamed
    | lower => simpa [casedText, h.kind, hkey] using h.lower_eq hnamed
    | preserve => exact absurd rfl hcase
  · have htext : q.text = t.text := by simpa [Token.isKeyword, hkey] using h.text
    rw [casedText_other _ hkey, casedText_other _ (h.kind ▸ hkey), htext]

omit h in
theorem map_congr {α : Type} {f : Token → α} (hf : ∀ t q, SameSpelling t q → f q = f t)
    {ts qs : List Token} (h : List.Forall₂ SameSpelling ts qs) : qs.map f = ts.map f := by
  induction h with
  | nil => rfl
  | cons hspelling _ ih => rw [List.map_cons, List.map_cons, hf _ _ hspelling, ih]

end SameSpelling

theorem layoutGaps_congr (o : LayoutOptions) {ts qs : List Token}
    (h : List.Forall₂ SameSpelling (ts.filter Token.isSignificant)
      (qs.filter Token.isSignificant)) : layoutGaps o qs = layoutGaps o ts := by
  have hcanonical : (qs.filter Token.isSignificant).map canonical =
      (ts.filter Token.isSignificant).map canonical :=
    SameSpelling.map_congr (fun _ _ hspelling => hspelling.canonical_eq) h
  have hgaps (us : List Token) : layoutGaps o us = gapsOf ((layoutWriter o
      (splitStatements ((us.filter Token.isSignificant).map canonical))).marks o) := by
    rw [splitStatements, canonical_respelling.statementsFrom_map,
      canonical_respelling.layoutWriter, canonical_respelling.marks, gapsOf_map]
    rfl
  rw [hgaps, hgaps, hcanonical]

theorem format_respelled (o : LayoutOptions) {ts qs : List Token}
    (h : List.Forall₂ SameSpelling (ts.filter Token.isSignificant)
      (qs.filter Token.isSignificant)) :
    (o.keywordCase ≠ .preserve → format o qs = format o ts) ∧
    ∃ gaps : List Text, gaps.length = (ts.filter Token.isSignificant).length + 1 ∧
      (∀ g ∈ gaps, ∀ c ∈ g, c = ' ' ∨ c = '\n') ∧
      format o ts = weave gaps
        ((ts.filter Token.isSignificant).map (casedText o.keywordCase)) ∧
      format o qs = weave gaps
        ((qs.filter Token.isSignificant).map (casedText o.keywordCase)) := by
  have hgaps := layoutGaps_congr o h
  have hqs := format_eq_weave o qs
  rw [hgaps] at hqs
  refine ⟨?_, layoutGaps o ts, length_layoutGaps o ts, layoutGaps_blank o ts,
    format_eq_weave o ts, hqs⟩
  intro hcase
  have htexts : (qs.filter Token.isSignificant).map (casedText o.keywordCase) =
      (ts.filter Token.isSignificant).map (casedText o.keywordCase) :=
    SameSpelling.map_congr (fun _ _ hspelling => hspelling.casedText_eq hcase) h
  rw [hqs, htexts, format_eq_weave o ts]

theorem format_respelled_select :
    format {} [⟨.keyword, "Select".toList, 9⟩, ⟨.identifier, ['a'], 0⟩] =
      format {} [⟨.keyword, "select".toList, 0⟩, ⟨.blank, [' ', '\n'], 6⟩,
        ⟨.identifier, ['a'], 8⟩] := by
  refine (format_respelled {} ?_).1 (by decide)
  exact .cons ⟨rfl, by decide⟩ (.cons ⟨rfl, by decide⟩ .nil)

end EmbeddedSql.Layout
