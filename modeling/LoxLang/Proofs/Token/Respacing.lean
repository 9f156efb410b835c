import LoxLang.Proofs.Token.Uniqueness

/-!
# Tokens that are written anew

Blanks and comments separate tokens and mean nothing.  A space ends every token: no operator,
number or name contains one, and a string is closed by its quote.  So the tokens of a text,
written with single spaces between them, are pieces of what is written, and nothing is wrong
with it whatever was wrong with the text.

## Main results

* `Piece.Fits.of_space` — a token stays a token if a space or nothing follows it.
* `Tiling.spaced` — tokens with spaces between them tile what is written.
* `Lexed.ofText_respaced` — **the tokens of a text, written with single spaces, have the same
  tokens and no faults.**
-/

namespace LoxLang

/-- Nothing longer begins with a word that is followed by what no word contains. -/
theorem longest_of_stop {IsWord : List Char → Prop} {stop : Char} {cs rest : List Char}
    (hstop : ∀ w, IsWord w → stop ∉ w) (hrest : ∀ c ∈ rest.head?, c = stop) :
    Longest IsWord cs (cs ++ rest) := by
  intro w hw hbegins
  by_contra hlonger
  obtain ⟨t, rfl⟩ := List.prefix_of_prefix_length_le (List.prefix_append cs rest) hbegins
    (Nat.le_of_not_le hlonger)
  cases t with
  | nil => simp at hlonger
  | cons d t =>
    -- the longer word goes on with the character that stops it
    obtain ⟨u, hu⟩ := (List.prefix_append_right_inj cs).mp hbegins
    obtain rfl : d = stop := hrest d (by rw [← hu]; rfl)
    exact hstop _ hw (List.mem_append_right cs List.mem_cons_self)

theorem space_notMem_of_mem_operators {w : List Char} (h : ∃ k, (w, k) ∈ operators) : ' ' ∉ w := by
  have hall : ∀ e ∈ operators, ' ' ∉ e.1 := by decide
  obtain ⟨k, hk⟩ := h
  exact hall _ hk

theorem Numeral.space_notMem {w : List Char} (h : ∃ ds n, Numeral w ds n) : ' ' ∉ w := by
  obtain ⟨ds, n, h⟩ := h
  intro hspace
  exact absurd (h.all _ hspace) (by decide)

theorem IsName.space_notMem {w : List Char} (h : IsName w) : ' ' ∉ w := by
  intro hspace
  exact absurd (h.all _ hspace) (by decide)

namespace Piece

/-- A token stays a token if a space or nothing follows it. -/
theorem Fits.of_space {kind : TokenKind} {cs rest rest' : List Char} {literal : Literal}
    (h : (Piece.token kind cs literal).Fits rest) (hrest : ∀ c ∈ rest'.head?, c = ' ') :
    (Piece.token kind cs literal).Fits rest' := by
  cases h with
  | operator h =>
    refine .operator h (longest_of_stop (fun _ => space_notMem_of_mem_operators) hrest) ?_
    intro _ c hc
    rw [hrest c hc]
    decide
  | number h => exact .number h (longest_of_stop (fun _ => Numeral.space_notMem) hrest)
  | name h _ hkind => exact .name h (longest_of_stop (fun _ => IsName.space_notMem) hrest) hkind
  | string h => exact .string h

/-- Whether a piece is a token. -/
def isToken (p : Piece) : Bool := p.token?.isSome

theorem cause?_of_isToken {p : Piece} (h : p.isToken = true) : p.cause? = none := by
  cases p with
  | token => rfl
  | blank | comment | stray | openString | openComment => cases h

end Piece

/-! ### Pieces with spaces between them -/

/-- Tokens with spaces between them tile what is written. -/
theorem Tiling.spaced {ps : List Piece}
    (h : ∀ p ∈ ps, ∀ rest : List Char, (∀ c ∈ rest.head?, c = ' ') → p.Fits rest) :
    Tiling ([' '].intercalate (ps.map Piece.text)) (ps.intersperse (.blank ' ')) := by
  induction ps with
  | nil => exact .nil
  | cons p ps ih =>
    obtain ⟨hp, hps⟩ := List.forall_mem_cons.mp h
    cases ps with
    | nil =>
      have hlast := Tiling.cons (hp [] (by simp)) .nil
      simpa using hlast
    | cons q ps =>
      have hspace : (Piece.blank ' ').Fits ([' '].intercalate ((q :: ps).map Piece.text)) :=
        .blank (by decide)
      have htail := Tiling.cons hspace (ih hps)
      have hcons := Tiling.cons (hp _ (by simp [Piece.text])) htail
      simpa [Piece.text] using hcons

/-- What is made of pieces is not changed by pieces between them of which nothing is made. -/
theorem filterMap_intersperse {α β : Type} {f : α → Option β} {sep : α} (h : f sep = none)
    (l : List α) : (l.intersperse sep).filterMap f = l.filterMap f := by
  induction l with
  | nil => rfl
  | cons a l ih =>
    cases l with
    | nil => rfl
    | cons b l =>
      rw [List.intersperse_cons_cons, List.filterMap_cons, List.filterMap_cons_none h, ih]
      rfl

/-- The tokens among pieces are written as the tokens that are made of them. -/
theorem map_text_filter_isToken (ps : List Piece) :
    (ps.filter Piece.isToken).map Piece.text
      = (ps.filterMap Piece.token?).map fun e => e.2.1.toList := by
  induction ps with
  | nil => rfl
  | cons p ps ih =>
    cases p with
    | token kind cs literal =>
      show cs :: (ps.filter Piece.isToken).map Piece.text = (String.ofList cs).toList :: _
      rw [ih, String.toList_ofList]
    | blank | comment | stray | openString | openComment => exact ih

theorem filterMap_filter_isToken (ps : List Piece) :
    (ps.filter Piece.isToken).filterMap Piece.token? = ps.filterMap Piece.token? := by
  induction ps with
  | nil => rfl
  | cons p ps ih =>
    cases p with
    | token kind cs literal => exact congrArg (List.cons (kind, String.ofList cs, literal)) ih
    | blank | comment | stray | openString | openComment => exact ih

/-! ### Tokens -/

namespace Lexed

/-- The pieces of the tokens of a text that are written with single spaces. -/
theorem tile_respaced (text : String) (line : Int) (position : Nat) :
    tile (" ".intercalate ((ofText text line position).tokens.map Token.lexeme)).toList
      = ((tile text.toList).filter Piece.isToken).intersperse (.blank ' ') := by
  have hwords : ((ofText text line position).tokens.map Token.lexeme).map String.toList
      = ((tile text.toList).filter Piece.isToken).map Piece.text := by
    rw [map_text_filter_isToken, ← tokens_ofPieces line position, List.map_map, List.map_map]
    rfl
  have hfits : ∀ p ∈ (tile text.toList).filter Piece.isToken, ∀ rest : List Char,
      (∀ c ∈ rest.head?, c = ' ') → p.Fits rest := by
    intro p hp rest hrest
    obtain ⟨hp, htoken⟩ := List.mem_filter.mp hp
    obtain ⟨before, behind, hsplit⟩ := List.append_of_mem hp
    have htiling := Tiling.tile text.toList
    rw [hsplit] at htiling
    cases p with
    | token => exact htiling.of_split.1.of_space hrest
    | blank | comment | stray | openString | openComment => cases htoken
  rw [String.toList_intercalate, hwords]
  exact (Tiling.spaced hfits).eq_tile.symm

/-- **Blanks and comments mean nothing.**  The tokens of a text, with or without faults, are
written one after the other with a single space between them, wherever what is written begins.
Then nothing is wrong with it, and it has the same tokens in the same order: of the same kinds,
with the same texts and constants. -/
theorem ofText_respaced (text : String) (line line' : Int) (position position' : Nat) :
    let tokens := (ofText text line position).tokens
    let respaced := ofText (" ".intercalate (tokens.map Token.lexeme)) line' position'
    respaced.faults = []
      ∧ respaced.tokens.map (fun t => (t.kind, t.lexeme, t.literal))
        = tokens.map fun t => (t.kind, t.lexeme, t.literal) := by
  intro tokens respaced
  have hpieces := tile_respaced text line position
  constructor
  · have hcauses : respaced.faults.map LexFault.cause = [] := by
      show (ofPieces line' position' (tile _)).faults.map LexFault.cause = []
      rw [faults_ofPieces, hpieces, filterMap_intersperse rfl, List.filterMap_eq_nil_iff]
      intro p hp
      exact Piece.cause?_of_isToken (List.mem_filter.mp hp).2
    exact List.map_eq_nil_iff.mp hcauses
  · show (ofPieces line' position' (tile _)).tokens.map _ = (ofPieces line position _).tokens.map _
    rw [tokens_ofPieces, tokens_ofPieces, hpieces, filterMap_intersperse rfl,
      filterMap_filter_isToken]

-- operators that a comment keeps apart, a string with a comment mark in it, and a stray mark
example : (ofText (" ".intercalate ((ofText "=/**/=\"//\n\"4.@" 1 0).tokens.map Token.lexeme))
      1 0).tokens.map Token.lexeme = ["=", "=", "\"//\n\"", "4", "."] := by
  decide +kernel

end Lexed

end LoxLang
