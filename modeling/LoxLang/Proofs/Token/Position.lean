import LoxLang.Token.Lexer

/-!
# Positions of tokens

The tokens of a text stand one after the other, each within the stretch of positions
that the text takes up.  A position belongs to one token at most, therefore, also when
several texts follow each other.

## Main results

* `Lexed.position_lt_of_mem`, `Lexed.le_position_of_mem` — tokens stand within their text.
* `Lexed.nodup_positions` — no two tokens have the same position.
-/

namespace LoxLang

/-- A piece of a text has at least one character. -/
theorem text_ne_nil_of_mem_tileFrom {skip : Nat} {cs : List Char} {p : Piece}
    (h : p ∈ tileFrom skip cs) : p.text ≠ [] := by
  fun_induction tileFrom skip cs with
  | case1 => exact absurd h List.not_mem_nil
  | case2 _ _ _ ih => exact ih h
  | case3 c cs ih =>
    rcases List.mem_cons.mp h with rfl | h
    · exact Piece.text_first_ne_nil c cs
    · exact ih h

namespace Lexed

/-- A piece adds at most one token to a lexed text, and it stands at the piece. -/
theorem tokens_cons (line : Int) (position : Nat) (p : Piece) (rest : Lexed) :
    (cons line position p rest).tokens = rest.tokens
      ∨ ∃ t : Token, t.position = position
        ∧ (cons line position p rest).tokens = t :: rest.tokens := by
  cases p with
  | token kind text literal => exact .inr ⟨_, rfl, rfl⟩
  | blank | comment | stray | openString | openComment => exact .inl rfl

/-- The tokens among pieces stand where the pieces do, one behind the other. -/
theorem ofPieces_positions (line : Int) (position : Nat) (ps : List Piece)
    (hne : ∀ p ∈ ps, p.text ≠ []) :
    (∀ t ∈ (ofPieces line position ps).tokens,
        position ≤ t.position ∧ t.position < position + (ps.flatMap Piece.text).length)
      ∧ ((ofPieces line position ps).tokens.map Token.position).Pairwise (· < ·) := by
  induction ps generalizing line position with
  | nil => exact ⟨by simp [ofPieces], by simp [ofPieces]⟩
  | cons p ps ih =>
    have hp : 0 < p.text.length := List.length_pos_iff.mpr (hne p List.mem_cons_self)
    obtain ⟨hrange, hsorted⟩ := ih (line + lineEnds p.text) (position + p.text.length)
      fun q hq => hne q (List.mem_cons_of_mem p hq)
    have hlater : ∀ t ∈ (ofPieces (line + lineEnds p.text) (position + p.text.length) ps).tokens,
        position < t.position
          ∧ t.position < position + ((p :: ps).flatMap Piece.text).length := by
      intro t ht
      have := hrange t ht
      rw [List.flatMap_cons, List.length_append]
      omega
    rw [ofPieces]
    rcases tokens_cons (line + lineEnds p.text) position p
        (ofPieces (line + lineEnds p.text) (position + p.text.length) ps) with heq | ⟨t, ht, heq⟩
    · rw [heq]
      exact ⟨fun t ht => ⟨Nat.le_of_lt (hlater t ht).1, (hlater t ht).2⟩, hsorted⟩
    · rw [heq]
      refine ⟨?_, ?_⟩
      · intro u hu
        rcases List.mem_cons.mp hu with rfl | hu
        · rw [ht, List.flatMap_cons, List.length_append]
          omega
        · exact ⟨Nat.le_of_lt (hlater u hu).1, (hlater u hu).2⟩
      · rw [List.map_cons, List.pairwise_cons]
        refine ⟨?_, hsorted⟩
        intro k hk
        obtain ⟨u, hu, rfl⟩ := List.mem_map.mp hk
        rw [ht]
        exact (hlater u hu).1

variable {text : String} {line : Int} {position : Nat} {t : Token}

theorem ofText_positions :
    (∀ t ∈ (ofText text line position).tokens,
        position ≤ t.position ∧ t.position < position + text.length)
      ∧ ((ofText text line position).tokens.map Token.position).Pairwise (· < ·) := by
  have h := ofPieces_positions line position (tile text.toList) fun _ hp =>
    text_ne_nil_of_mem_tileFrom hp
  rw [flatMap_text_tile, String.length_toList] at h
  exact h

/-- A token does not stand before its text. -/
theorem le_position_of_mem (h : t ∈ (ofText text line position).tokens) :
    position ≤ t.position := (ofText_positions.1 t h).1

/-- A token does not stand behind its text. -/
theorem position_lt_of_mem (h : t ∈ (ofText text line position).tokens) :
    t.position < position + text.length := (ofText_positions.1 t h).2

/-- No two tokens of a text have the same position. -/
theorem nodup_positions : ((ofText text line position).tokens.map Token.position).Nodup :=
  ofText_positions.2.imp Nat.ne_of_lt

end Lexed

end LoxLang
