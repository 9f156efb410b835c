import LoxLang.Token.Lexer

/-!
# Reserved words

A word that is reserved is never read as a name, and nothing but the word is read as it.

## Main definitions

* `TokenKind.isWord` — the kinds of words.

## Main results

* `Lexed.kind_eq` — what kind a word has.
* `Lexed.keyword?_eq_none` — a name in a text is not a reserved word.
-/

namespace LoxLang

/-- The kinds of words: names, and words that are reserved. -/
def TokenKind.isWord (kind : TokenKind) : Bool :=
  kind == .identifier || (keywords.map Prod.snd).contains kind

/-- The kind of a reserved word stands beside it. -/
theorem mem_keywords {word : String} {kind : TokenKind} (h : keyword? word = some kind) :
    (word, kind) ∈ keywords := by
  obtain ⟨before, behind, heq, -⟩ := List.lookup_eq_some_iff.mp h
  rw [heq]
  exact List.mem_append_right _ List.mem_cons_self

/-- No word is reserved as a name. -/
theorem keyword?_ne_identifier (word : String) : keyword? word ≠ some .identifier := by
  intro h
  have hkinds : ∀ entry ∈ keywords, entry.2 ≠ .identifier := by decide
  exact hkinds _ (mem_keywords h) rfl

/-- A piece that is a word has the kind of this word. -/
theorem Piece.kind_of_first {c : Char} {cs word : List Char} {kind : TokenKind}
    {literal : Literal} (h : Piece.first c cs = .token kind word literal) (hword : kind.isWord) :
    (keyword? (String.ofList word)).getD .identifier = kind := by
  have hmark : ∀ k, Piece.mark? c = some k → ¬k.isWord := by
    unfold Piece.mark?
    intro k hk
    split at hk <;> cases hk <;> decide
  have hcomparison : ∀ k k', Piece.comparison? c = some (k, k') → ¬k.isWord ∧ ¬k'.isWord := by
    unfold Piece.comparison?
    intro k k' hk
    split at hk <;> cases hk <;> decide
  unfold Piece.first at h
  split at h
  · next k hk =>
    cases h
    exact absurd hword (hmark _ hk)
  split at h
  · next k k' hk =>
    unfold Piece.afterComparison at h
    split at h <;> cases h
    · exact absurd hword (hcomparison _ _ hk).1
    · exact absurd hword (hcomparison _ _ hk).2
  split at h
  · unfold Piece.afterSlash at h
    split at h
    · cases h
    · split at h <;> cases h
    · cases h
      exact absurd hword (by decide)
  split at h
  · cases h
  split at h
  · unfold Piece.afterQuote at h
    dsimp only at h
    split at h <;> cases h
    exact absurd hword (by decide)
  split at h
  · unfold Piece.afterDigit at h
    dsimp only at h
    split at h <;> cases h <;> exact absurd hword (by decide)
  split at h
  · cases h
    rfl
  · cases h

theorem kind_of_mem_tileFrom {skip : Nat} {cs word : List Char} {kind : TokenKind}
    {literal : Literal} (h : .token kind word literal ∈ tileFrom skip cs) (hword : kind.isWord) :
    (keyword? (String.ofList word)).getD .identifier = kind := by
  fun_induction tileFrom skip cs with
  | case1 => exact absurd h List.not_mem_nil
  | case2 _ _ _ ih => exact ih h
  | case3 c cs ih =>
    rcases List.mem_cons.mp h with h | h
    · exact Piece.kind_of_first h.symm hword
    · exact ih h

namespace Lexed

/-- A token is a piece. -/
theorem mem_of_mem_ofPieces {line : Int} {position : Nat} {ps : List Piece} {t : Token}
    (h : t ∈ (ofPieces line position ps).tokens) :
    ∃ word, .token t.kind word t.literal ∈ ps ∧ t.lexeme = String.ofList word := by
  induction ps generalizing line position with
  | nil => exact absurd h List.not_mem_nil
  | cons p ps ih =>
    rw [ofPieces] at h
    have hlater : t ∈ (ofPieces (line + lineEnds p.text) (position + p.text.length) ps).tokens →
        ∃ word, .token t.kind word t.literal ∈ p :: ps ∧ t.lexeme = String.ofList word := by
      intro ht
      obtain ⟨word, hmem, heq⟩ := ih ht
      exact ⟨word, List.mem_cons_of_mem p hmem, heq⟩
    cases p with
    | token kind word literal =>
      rcases List.mem_cons.mp h with rfl | h
      · exact ⟨word, List.mem_cons_self, rfl⟩
      · exact hlater h
    | blank | comment | stray | openString | openComment => exact hlater h

/-- The token for the end of a text is no word. -/
theorem kind_final_ofPieces (line : Int) (position : Nat) (ps : List Piece) :
    (ofPieces line position ps).final.kind = .eof := by
  induction ps generalizing line position with
  | nil => rfl
  | cons p ps ih => cases p <;> exact ih _ _

section Word

variable {text : String} {line : Int} {position : Nat} {t : Token}
  (h : t ∈ (ofText text line position).allTokens)

include h

/-- A word in a text has the kind for which it is reserved, or it is a name. -/
theorem kind_eq (hword : t.kind.isWord) : (keyword? t.lexeme).getD .identifier = t.kind := by
  rcases List.mem_append.mp h with h | h
  · obtain ⟨word, hmem, heq⟩ := mem_of_mem_ofPieces h
    rw [heq]
    exact kind_of_mem_tileFrom hmem hword
  · rw [List.mem_singleton.mp h, ofText, kind_final_ofPieces] at hword
    cases hword

/-- A name in a text is not a reserved word. -/
theorem keyword?_eq_none (hkind : t.kind = .identifier) : keyword? t.lexeme = none := by
  have heq := kind_eq h (by rw [hkind]; rfl)
  cases hword : keyword? t.lexeme with
  | none => rfl
  | some k =>
    rw [hword, Option.getD_some, hkind] at heq
    exact absurd (heq ▸ hword) (keyword?_ne_identifier _)

/-- The word `this` is written in one way. -/
theorem lexeme_eq_this (hkind : t.kind = .kwThis) : t.lexeme = "this" := by
  have heq := kind_eq h (by rw [hkind]; rfl)
  cases hword : keyword? t.lexeme with
  | none =>
    rw [hword, Option.getD_none, hkind] at heq
    cases heq
  | some k =>
    rw [hword, Option.getD_some, hkind] at heq
    have hwords : ∀ entry ∈ keywords, entry.2 = .kwThis → entry.1 = "this" := by decide
    exact hwords _ (mem_keywords hword) heq

end Word

end Lexed

end LoxLang
