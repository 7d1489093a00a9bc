import Mathlib.Data.List.Forall2
import EmbeddedSql.Verdict

namespace EmbeddedSql

structure SameLexeme (a b : Token) : Prop where
  text : a.text = b.text
  offset : a.offset = b.offset
  kind : a.kind = b.kind ∨ (a.kind ∈ [.keyword, .identifier] ∧ b.kind ∈ [.keyword, .identifier])

namespace SameLexeme

variable {a b : Token} (h : SameLexeme a b)

include h

theorem isWord_eq : Verdict.isWord a = Verdict.isWord b := by
  rcases h.kind with hkind | ⟨ha, hb⟩
  · rw [Verdict.isWord, Verdict.isWord, hkind]
  · simp only [List.mem_cons, List.not_mem_nil, or_false] at ha hb
    rcases ha with ha | ha <;> rcases hb with hb | hb <;> simp [Verdict.isWord, ha, hb]

theorem kind_eq_iff {k : TokenKind} (hk : k ≠ .keyword ∧ k ≠ .identifier) :
    a.kind = k ↔ b.kind = k := by
  rcases h.kind with hkind | ⟨ha, hb⟩
  · rw [hkind]
  · obtain ⟨hkeyword, hidentifier⟩ := hk
    constructor
    · rintro rfl
      simp [hkeyword, hidentifier] at ha
    · rintro rfl
      simp [hkeyword, hidentifier] at hb

end SameLexeme

section

variable (v v' : Vocabulary)

theorem token_sameLexeme (kind : TokenKind) (lexeme : Text) (offset : Nat) :
    SameLexeme (Lexer.token v kind lexeme offset) (Lexer.token v' kind lexeme offset) := by
  unfold Lexer.token
  cases kind with
  | identifier =>
      dsimp only
      split <;> split <;> exact ⟨rfl, rfl, by simp⟩
  | _ => exact ⟨rfl, rfl, .inl rfl⟩

theorem tokensFrom_sameLexeme (offset : Nat) (t : Text) :
    List.Forall₂ SameLexeme (Lexer.tokensFrom v offset t) (Lexer.tokensFrom v' offset t) := by
  fun_induction Lexer.tokensFrom v offset t with
  | case1 offset =>
      rw [Lexer.tokensFrom]
      exact .nil
  | case2 offset c r kind n hlexeme piece ih =>
      rw [Lexer.tokensFrom, hlexeme]
      exact .cons (token_sameLexeme v v' kind piece offset) ih

end

namespace Verdict

theorem find?_text_congr {p q : Token → Bool} (hpq : ∀ a b, SameLexeme a b → p a = q b)
    {ts us : List Token} (h : List.Forall₂ SameLexeme ts us) :
    (ts.find? p).map Token.text = (us.find? q).map Token.text := by
  induction h with
  | nil => rfl
  | @cons a b ts us hab _ ih =>
      rw [List.find?_cons, List.find?_cons, hpq a b hab]
      cases q b with
      | true => exact congrArg some hab.text
      | false => exact ih

theorem contentSignal?_congr (words : SignalWords) {ts us : List Token}
    (h : List.Forall₂ SameLexeme ts us) : contentSignal? words ts = contentSignal? words us := by
  have hfilter : List.Forall₂ SameLexeme
      (ts.filter fun t => t.kind ≠ .blank && t.kind ≠ .comment)
      (us.filter fun t => t.kind ≠ .blank && t.kind ≠ .comment) := by
    refine List.rel_filter ?_ h
    intro a b hab
    simp [hab.kind_eq_iff (k := .blank) (by decide), hab.kind_eq_iff (k := .comment) (by decide)]
  unfold contentSignal?
  generalize ts.filter _ = ts' at hfilter ⊢
  generalize us.filter _ = us' at hfilter ⊢
  cases hfilter with
  | nil => rfl
  | @cons a b as bs hab hrest =>
      have hfind := find?_text_congr
        (p := fun t => isWord t && isListed words.structural t.text)
        (q := fun t => isWord t && isListed words.structural t.text)
        (fun x y hxy => by rw [hxy.isWord_eq, hxy.text]) hrest
      dsimp only
      rw [hab.isWord_eq, hab.text]
      split
      · -- the structural word enters the answer through its text alone
        have hanswer (found : Option Token) :
            (found.map fun t => (b.text.upper, t.text.upper)) =
              (found.map Token.text).map fun s => (b.text.upper, s.upper) := by
          rw [Option.map_map]
          rfl
        rw [hanswer, hanswer, hfind]
      · rfl

end Verdict

theorem vocabulary_irrelevant (v v' : Vocabulary) :
    (∀ t, List.Forall₂ SameLexeme (v.tokenize t) (v'.tokenize t)) ∧
      ∀ words o, classify v words o = classify v' words o := by
  refine ⟨tokensFrom_sameLexeme v v' 0, ?_⟩
  intro words o
  have hcontent := Verdict.contentSignal?_congr words (tokensFrom_sameLexeme v v' 0 o.text)
  unfold classify Vocabulary.tokenize
  rw [hcontent]

end EmbeddedSql
