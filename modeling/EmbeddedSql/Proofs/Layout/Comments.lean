import EmbeddedSql.Proofs.Layout.Rereading
import EmbeddedSql.Proofs.Token.Ending

namespace EmbeddedSql.Layout

open Text Lexer

def OpensComment (s t : Text) : Prop :=
  s.getLast? = some '-' ∧ t.head? = some '-' ∨ s.getLast? = some '/' ∧ t.head? = some '*'

theorem not_opensComment_of_getLast? {s t : Text} {c : Char} (h : s.getLast? = some c)
    (hc : c ≠ '-' ∧ c ≠ '/') : ¬OpensComment s t := by
  rintro (⟨hlast, -⟩ | ⟨hlast, -⟩)
  · exact hc.1 (Option.some.inj (h.symm.trans hlast))
  · exact hc.2 (Option.some.inj (h.symm.trans hlast))

theorem not_opensComment_of_head? {s t : Text} {c : Char} (h : t.head? = some c)
    (hc : c ≠ '-' ∧ c ≠ '*') : ¬OpensComment s t := by
  rintro (⟨-, hhead⟩ | ⟨-, hhead⟩)
  · exact hc.1 (Option.some.inj (h.symm.trans hhead))
  · exact hc.2 (Option.some.inj (h.symm.trans hhead))

theorem not_opensComment_of_touches (case : KeywordCase) {p t : Token} {unary : Bool}
    (hunary : unary = true → isSign p = true) (h : Touches p unary t) :
    ¬OpensComment (casedText case p) (casedText case t) := by
  have hmark {x : Token} {c : Char} (hx : x.isPunct c = true) :
      (casedText case x).head? = some c ∧ (casedText case x).getLast? = some c := by
    rw [casedText_punct case hx]
    exact ⟨rfl, rfl⟩
  have hcast {x : Token} (hx : isCast x = true) : casedText case x = [':', ':'] := by
    obtain ⟨hkind, htext⟩ := isCast_iff.1 hx
    rw [casedText_other case (by simp [hkind]), htext]
  cases h with
  | sign hu hdash =>
      obtain ⟨hkind, htext⟩ := isSign_iff.1 (hunary hu)
      have hslash : p.text.getLast? ≠ some '/' := by
        rcases htext with htext | htext | htext <;> simp [htext]
      rw [casedText_other case (by simp [hkind])]
      rintro (⟨-, hhead⟩ | ⟨hlast, -⟩)
      · exact hdash ((head?_casedText case t (by decide)).1 hhead)
      · exact hslash hlast
  | closing _ hc ht =>
      refine not_opensComment_of_head? (hmark ht).1 ?_
      exact ⟨by rintro rfl; simp at hc, by rintro rfl; simp at hc⟩
  | opened hc hp =>
      refine not_opensComment_of_getLast? (hmark hp).2 ?_
      exact ⟨by rintro rfl; simp at hc, by rintro rfl; simp at hc⟩
  | casting hp => exact not_opensComment_of_getLast? (c := ':') (by rw [hcast hp]; rfl) (by decide)
  | cast _ ht => exact not_opensComment_of_head? (c := ':') (by rw [hcast ht]; rfl) (by decide)
  | point ht _ => exact not_opensComment_of_head? (hmark ht).1 (by decide)
  | dotted hp _ =>
      refine not_opensComment_of_getLast? (c := '.') ?_ (by decide)
      rcases hp with hp | ⟨hkind, hlast⟩
      · exact (hmark hp).2
      · rw [casedText_other case (by simp [hkind]), hlast]
  | call hc ht _ =>
      refine not_opensComment_of_head? (hmark ht).1 ?_
      exact ⟨by rintro rfl; simp at hc, by rintro rfl; simp at hc⟩

theorem Sequence.isSign_of_unary {es : List Placed} (h : Sequence es) :
    ∀ e ∈ es, e.unary = true → isSign e.token = true := by
  refine h.forall_mem ?_ ?_
  · intro e _ hunary he
    exact isSign_of_isUnary (hunary ▸ he)
  · intro p e hfollows he
    exact isSign_of_isUnary (hfollows.unary ▸ he)

theorem Placed.Follows.not_opensComment (case : KeywordCase) {p e : Placed} (h : p.Follows e)
    (hunary : p.unary = true → isSign p.token = true) (hgap : e.gap = []) :
    ¬OpensComment (casedText case p.token) (casedText case e.token) := by
  obtain ⟨parenSpace, hsep⟩ := h.touching hgap
  exact not_opensComment_of_touches case hunary (touches_of_separated hsep)

theorem format_comments_apart (o : LayoutOptions) (v : Vocabulary) (sql : Text) :
    ∃ (es : List Placed) (ending : Text),
      es.map Placed.token = (v.tokenize sql).filter Token.isSignificant ∧
      (∀ e ∈ es, IsGap e.gap) ∧ (ending = [] ∨ ending = ['\n']) ∧
      format o (v.tokenize sql) = es.flatMap (Placed.text o.keywordCase) ++ ending ∧
      (∀ before e after, es = before ++ e :: after → e.token.isLineComment = true →
        after.flatMap (Placed.text o.keywordCase) ++ ending = [] ∨
          (after.flatMap (Placed.text o.keywordCase) ++ ending).head? = some '\n') ∧
      ∀ before p e after, es = before ++ p :: e :: after → e.gap = [] →
        ¬OpensComment (casedText o.keywordCase p.token) (casedText o.keywordCase e.token) := by
  obtain ⟨es, hes, hseq, hformat⟩ := format_placed o (v.tokenize sql) fun t ht =>
    ((legible_of_front List.prefix_rfl).begun t ht).text_ne_nil
  have hfollows (before after : List Placed) (p e : Placed)
      (hsplit : es = before ++ p :: e :: after) : p.Follows e := by
    have hchain := hseq.chain
    rw [hsplit] at hchain
    exact (List.isChain_append_cons_cons.1 hchain).2.1
  have hending : (if es.any Placed.breaks then ['\n'] else [] : Text) = [] ∨
      (if es.any Placed.breaks then ['\n'] else [] : Text) = ['\n'] := by
    split <;> simp
  refine ⟨es, _, hes, hseq.isGap, hending, hformat, ?_, ?_⟩
  · intro before e after hsplit hcomment
    cases after with
    | nil => exact hending.imp id fun h => by rw [h]; rfl
    | cons f after =>
        have hbreak := (hfollows before after e f hsplit).afterComment hcomment
        have hhead : f.gap.head? = some '\n' := by simpa [Placed.breaks] using hbreak
        right
        obtain ⟨g, hg⟩ := List.head?_eq_some_iff.1 hhead
        rw [List.flatMap_cons, Placed.text, hg]
        rfl
  · intro before p e after hsplit
    exact (hfollows before after p e hsplit).not_opensComment o.keywordCase
      (hseq.isSign_of_unary p (by simp [hsplit]))

end EmbeddedSql.Layout
