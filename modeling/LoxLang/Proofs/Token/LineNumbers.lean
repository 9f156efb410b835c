import LoxLang.Proofs.Token.Uniqueness

/-!
# Line numbers

Every piece of a text lies behind the pieces before it, and the line on which it ends is told
by the line ends up to its own end: those between the pieces, those in comments and those in
strings.  Tokens and faults have the line of their piece, and a piece that is not closed ends
with the text.

## Main definitions

* `placed` — the pieces of a text, each with the text before it.

## Main results

* `Lexed.tokens_eq_placed`, `Lexed.faults_eq_placed` — tokens and faults by their places.
* `Lexed.ofText_lines` — **line numbers count the line ends of the text.**
-/

namespace LoxLang

/-! ### Places -/

/-- The pieces of a text, each with the text before it. -/
def placed : List Piece → List (List Char × Piece)
  | [] => []
  | p :: ps => ([], p) :: (placed ps).map fun e => (p.text ++ e.1, e.2)

theorem exists_split_of_mem_placed {ps : List Piece} {e : List Char × Piece} (h : e ∈ placed ps) :
    ∃ before behind, ps = before ++ e.2 :: behind ∧ e.1 = before.flatMap Piece.text := by
  induction ps generalizing e with
  | nil => exact absurd h List.not_mem_nil
  | cons p ps ih =>
    rcases List.mem_cons.mp h with rfl | h
    · exact ⟨[], ps, rfl, rfl⟩
    · obtain ⟨e, he, rfl⟩ := List.mem_map.mp h
      obtain ⟨before, behind, hsplit, hbefore⟩ := ih he
      refine ⟨p :: before, behind, ?_, ?_⟩
      · rw [hsplit]
        rfl
      · rw [List.flatMap_cons, hbefore]

theorem Piece.isOpen_of_cause? {p : Piece} {cause : LexCause} (h : p.cause? = some cause)
    (hopen : cause = .openString ∨ cause = .openComment) : p.isOpen = true := by
  cases p with
  | openString | openComment => rfl
  | stray =>
    obtain rfl := Option.some.inj h
    simp at hopen
  | token | blank | comment => cases h

/-- A piece that is not closed ends with the text. -/
theorem Tiling.text_of_isOpen {cs : List Char} {ps : List Piece} (h : Tiling cs ps)
    {e : List Char × Piece} (he : e ∈ placed ps) (hopen : e.2.isOpen = true) :
    e.1 ++ e.2.text = cs := by
  obtain ⟨upTo, p⟩ := e
  obtain ⟨before, behind, rfl, hbefore⟩ := exists_split_of_mem_placed he
  have hend : behind.flatMap Piece.text = [] := by
    have hfits := h.of_split.1
    generalize behind.flatMap Piece.text = rest at hfits
    cases hfits with
    | openString | openComment => rfl
    | operator | number | name | string | blank | lineComment | blockComment | stray =>
      cases hopen
  rw [← h.flatMap_text, List.flatMap_append, List.flatMap_cons, hend, List.append_nil, hbefore]

/-- The text of a token does not end in a blank. -/
theorem Piece.Fits.exists_concat {kind : TokenKind} {cs rest : List Char} {literal : Literal}
    (h : (Piece.token kind cs literal).Fits rest) : ∃ w c, cs = w ++ [c] ∧ isBlank c = false := by
  have hne : cs ≠ [] := h.text_ne_nil
  have hlast : (∀ c ∈ cs, isBlank c = false) → ∃ w c, cs = w ++ [c] ∧ isBlank c = false := by
    intro hall
    exact ⟨_, _, (List.dropLast_concat_getLast hne).symm, hall _ (List.getLast_mem hne)⟩
  cases h with
  | operator h =>
    have hoperators : (operators.all fun e => e.1.all fun c => !isBlank c) = true := by decide
    have hspelled := List.all_eq_true.mp hoperators _ h
    exact hlast (by simpa using hspelled)
  | number h =>
    apply hlast
    intro c hc
    rcases Bool.or_eq_true_iff.mp (h.all c hc) with hdigit | hpoint
    · exact isBlank_eq_false_of_isDigit hdigit
    · rw [eq_of_beq hpoint]
      decide
  | name h => exact hlast fun c hc => isBlank_eq_false_of_continuesName (h.all c hc)
  | @string body => exact ⟨'"' :: body, '"', rfl, by decide⟩

namespace Lexed

variable (line : Int) (position : Nat)

theorem lineEnds_append (cs ds : List Char) : lineEnds (cs ++ ds) = lineEnds cs + lineEnds ds :=
  List.count_append

/-- What is made of a token piece behind some text. -/
def tokenOf (e : List Char × Piece) : Option Token :=
  e.2.token?.map fun (kind, lexeme, literal) =>
    ⟨kind, lexeme, literal, line + lineEnds (e.1 ++ e.2.text), position + e.1.length⟩

/-- What is said about a piece behind some text that is no part of a program. -/
def faultOf (e : List Char × Piece) : Option LexFault :=
  e.2.cause?.map fun cause => ⟨cause, line + lineEnds (e.1 ++ e.2.text)⟩

/-- Going on behind a piece is going on with the text that it adds. -/
theorem tokenOf_behind (p : Piece) (e : List Char × Piece) :
    tokenOf (line + lineEnds p.text) (position + p.text.length) e
      = tokenOf line position (p.text ++ e.1, e.2) := by
  simp only [tokenOf, lineEnds_append, List.length_append, Int.natCast_add, Int.add_assoc,
    Nat.add_assoc]

theorem faultOf_behind (p : Piece) (e : List Char × Piece) :
    faultOf (line + lineEnds p.text) e = faultOf line (p.text ++ e.1, e.2) := by
  simp only [faultOf, lineEnds_append, Int.natCast_add, Int.add_assoc]

/-- The tokens among pieces have the lines and the positions of their places. -/
theorem tokens_eq_placed (ps : List Piece) :
    (ofPieces line position ps).tokens = (placed ps).filterMap (tokenOf line position) := by
  induction ps generalizing line position with
  | nil => rfl
  | cons p ps ih =>
    have hlater : (ofPieces (line + lineEnds p.text) (position + p.text.length) ps).tokens
        = ((placed ps).map fun e => (p.text ++ e.1, e.2)).filterMap (tokenOf line position) := by
      rw [ih, List.filterMap_map]
      congr 1
      funext e
      exact tokenOf_behind line position p e
    cases p with
    | token kind cs literal => exact congrArg (List.cons _) hlater
    | blank | comment | stray | openString | openComment => exact hlater

/-- The faults of pieces have the lines of their places. -/
theorem faults_eq_placed (ps : List Piece) :
    (ofPieces line position ps).faults = (placed ps).filterMap (faultOf line) := by
  induction ps generalizing line position with
  | nil => rfl
  | cons p ps ih =>
    have hlater : (ofPieces (line + lineEnds p.text) (position + p.text.length) ps).faults
        = ((placed ps).map fun e => (p.text ++ e.1, e.2)).filterMap (faultOf line) := by
      rw [ih, List.filterMap_map]
      congr 1
      funext e
      exact faultOf_behind line p e
    cases p with
    | token | blank | comment => exact hlater
    | stray | openString | openComment => exact congrArg (List.cons _) hlater

/-- A token is the text of its piece, and its line and position are told by its place. -/
theorem exists_place_of_mem_tokens {ps : List Piece} {t : Token}
    (ht : t ∈ (ofPieces line position ps).tokens) :
    ∃ e ∈ placed ps, t.lexeme.toList = e.2.text ∧ t.position = position + e.1.length
      ∧ t.line = line + lineEnds (e.1 ++ e.2.text) := by
  rw [tokens_eq_placed] at ht
  obtain ⟨⟨before, p⟩, he, ht⟩ := List.mem_filterMap.mp ht
  cases p with
  | token kind cs literal =>
    obtain rfl := Option.some.inj ht
    exact ⟨_, he, String.toList_ofList, rfl, rfl⟩
  | blank | comment | stray | openString | openComment => cases ht

/-- A token stands in the text where its position says, and its line is told by what stands up to
its end, which is no blank. -/
theorem exists_standing_of_mem_tokens {text : String} {t : Token}
    (ht : t ∈ (ofText text line position).tokens) :
    ∃ before behind, text.toList = before ++ t.lexeme.toList ++ behind
      ∧ t.position = position + before.length
      ∧ t.line = line + lineEnds (before ++ t.lexeme.toList)
      ∧ ∃ w c, t.lexeme.toList = w ++ [c] ∧ isBlank c = false := by
  have htiling := Tiling.tile text.toList
  rw [ofText, tokens_eq_placed] at ht
  obtain ⟨⟨before, p⟩, he, ht⟩ := List.mem_filterMap.mp ht
  obtain ⟨ps, behind, hsplit, hbefore⟩ := exists_split_of_mem_placed he
  rw [hsplit] at htiling
  cases p with
  | token kind cs literal =>
    obtain rfl := Option.some.inj ht
    simp only [Piece.text, String.toList_ofList] at hbefore ⊢
    refine ⟨before, behind.flatMap Piece.text, ?_, rfl, rfl, htiling.of_split.1.exists_concat⟩
    rw [← htiling.flatMap_text, List.flatMap_append, List.flatMap_cons, hbefore,
      List.append_assoc]
    rfl
  | blank | comment | stray | openString | openComment => cases ht

/-- A fault says what is wrong with its piece, and its line is told by the place of the piece. -/
theorem exists_place_of_mem_faults {ps : List Piece} {f : LexFault}
    (hf : f ∈ (ofPieces line position ps).faults) :
    ∃ e ∈ placed ps, e.2.cause? = some f.cause ∧ f.line = line + lineEnds (e.1 ++ e.2.text) := by
  rw [faults_eq_placed] at hf
  obtain ⟨e, he, hf⟩ := List.mem_filterMap.mp hf
  obtain ⟨cause, hcause, rfl⟩ := Option.map_eq_some_iff.mp hf
  exact ⟨e, he, hcause, rfl⟩

/-- **Line numbers count the line ends of the text.**  A token stands in the text at its
position, and its line is the first one plus the number of line ends before the end of the
token.  The line of the end is the first one plus the number of all line ends.  There is one
way to tile the text, and the faults are those of the pieces in order, each on the first line
plus the number of line ends before the end of its piece; for a string or a comment that is not
closed, this is the end of the text. -/
theorem ofText_lines (text : String) :
    (∀ t ∈ (ofText text line position).tokens, ∃ before behind,
        text.toList = before ++ t.lexeme.toList ++ behind
          ∧ t.position = position + before.length
          ∧ t.line = line + (before ++ t.lexeme.toList).count '\n')
      ∧ (ofText text line position).final.kind = .eof
      ∧ (ofText text line position).final.line = line + text.toList.count '\n'
      ∧ (∃ pieces, (∀ ps, Tiling text.toList ps ↔ ps = pieces)
        ∧ (ofText text line position).faults = (placed pieces).filterMap fun e =>
          e.2.cause?.map fun cause => ⟨cause, line + (e.1 ++ e.2.text).count '\n'⟩)
      ∧ ∀ f ∈ (ofText text line position).faults,
        f.cause = .openString ∨ f.cause = .openComment →
          f.line = line + text.toList.count '\n' := by
  have htiling := Tiling.tile text.toList
  refine ⟨fun t ht => ?_, ?_, ?_, ⟨tile text.toList, fun ps => tiling_iff,
    faults_eq_placed line position _⟩, fun f hf hopen => ?_⟩
  · obtain ⟨e, he, hlexeme, hposition, hline⟩ := exists_place_of_mem_tokens line position ht
    obtain ⟨before, behind, hsplit, hbefore⟩ := exists_split_of_mem_placed he
    rw [← hlexeme] at hline
    refine ⟨e.1, behind.flatMap Piece.text, ?_, hposition, hline⟩
    rw [← htiling.flatMap_text, hsplit, hbefore, hlexeme, List.flatMap_append,
      List.flatMap_cons, List.append_assoc]
  · rw [ofText, kind_final_ofPieces]
  · rw [ofText, final_ofPieces, flatMap_text_tile]
    rfl
  · obtain ⟨e, he, hcause, hline⟩ := exists_place_of_mem_faults line position hf
    rw [htiling.text_of_isOpen he (Piece.isOpen_of_cause? hcause hopen)] at hline
    exact hline

-- a string and a comment over two lines, a comment up to a line end, and a string left open
example : (ofText "a\n\"b\nc\"/*\n*/@//\n\"\n" 5 0).allTokens.map Token.line = [5, 7, 10]
    ∧ (ofText "a\n\"b\nc\"/*\n*/@//\n\"\n" 5 0).faults.map LexFault.line = [8, 10] := by
  decide +kernel

end Lexed

end LoxLang
