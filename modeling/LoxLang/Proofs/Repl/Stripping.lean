import LoxLang.Proofs.Repl.Balance
import LoxLang.Proofs.Token.Cutting

/-!
# The comment that is left out of an entry

The comment at the end of an entry is left out, and the blanks at its end.  On one line this
changes neither the tokens nor the faults, as long as what is left out begins where a comment
does, or lies within something that is not closed anyway.  But block comments are not looked at:
two slashes within one, or within a string behind one with a quote in it, are taken for the
beginning of a comment.  Then what closes the block comment or the string is left out, and it is
a fault that it is not closed.

## Main definitions

* `Lexed.Alike` — the same tokens on the same lines, and the same faults.
* `Entry.torn?`, `Entry.Torn` — the string or block comment that loses its end.

## Main results

* `Entry.readAlike_or_torn` — what is kept reads like the entry, or something is torn.
* `Entry.Torn.exists_block` — nothing is torn without a block comment.
* `Entry.stripped_reads` — **how an entry reads without its comment.**
-/

namespace LoxLang

/-! ### Texts on one line -/

namespace Lexed

/-- The same kinds, texts and constants of tokens on the same lines, and the same faults. -/
def Alike (l r : Lexed) : Prop :=
  l.allTokens.map (fun t => (t.kind, t.lexeme, t.literal, t.line))
      = r.allTokens.map (fun t => (t.kind, t.lexeme, t.literal, t.line))
    ∧ l.faults = r.faults

variable (line : Int) (position : Nat)

/-- A piece without a line end does not end a line. -/
theorem line_of_one_line {p : Piece} {ps : List Piece}
    (h : '\n' ∉ (p :: ps).flatMap Piece.text) :
    line + (lineEnds p.text : Int) = line ∧ '\n' ∉ ps.flatMap Piece.text := by
  rw [List.flatMap_cons, List.mem_append, not_or] at h
  have hnone : lineEnds p.text = 0 := List.count_eq_zero.mpr h.1
  exact ⟨by simp [hnone], h.2⟩

/-- The tokens of pieces without a line end are on the first line. -/
theorem tokens_of_one_line {ps : List Piece} (h : '\n' ∉ ps.flatMap Piece.text) :
    (ofPieces line position ps).tokens.map (fun t => (t.kind, t.lexeme, t.literal, t.line))
      = (ps.filterMap Piece.token?).map fun e => (e.1, e.2.1, e.2.2, line) := by
  induction ps generalizing position with
  | nil => rfl
  | cons p ps ih =>
    obtain ⟨hline, hps⟩ := line_of_one_line line h
    have hlater := ih (position + p.text.length) hps
    rw [ofPieces, hline]
    cases p with
    | token kind cs literal =>
      exact congrArg (List.cons (kind, String.ofList cs, literal, line)) hlater
    | blank | comment | stray | openString | openComment => exact hlater

/-- The faults of pieces without a line end are on the first line. -/
theorem faults_of_one_line {ps : List Piece} (h : '\n' ∉ ps.flatMap Piece.text) :
    (ofPieces line position ps).faults
      = (ps.filterMap Piece.cause?).map fun cause => ⟨cause, line⟩ := by
  induction ps generalizing position with
  | nil => rfl
  | cons p ps ih =>
    obtain ⟨hline, hps⟩ := line_of_one_line line h
    have hlater := ih (position + p.text.length) hps
    rw [ofPieces, hline]
    cases p with
    | token | blank | comment => exact hlater
    | stray c => exact congrArg (List.cons ⟨.stray c, line⟩) hlater
    | openString => exact congrArg (List.cons ⟨.openString, line⟩) hlater
    | openComment => exact congrArg (List.cons ⟨.openComment, line⟩) hlater

/-- Pieces without a line end of which the same tokens and faults are made are alike. -/
theorem alike_of_readAlike {ps qs : List Piece} (hps : '\n' ∉ ps.flatMap Piece.text)
    (hqs : '\n' ∉ qs.flatMap Piece.text) (h : ReadAlike ps qs) :
    Alike (ofPieces line position ps) (ofPieces line position qs) := by
  have hend : ∀ {ps : List Piece}, '\n' ∉ ps.flatMap Piece.text →
      ∃ n, (ofPieces line position ps).final = .endOfText line n := by
    intro ps hps
    have hnone : lineEnds (ps.flatMap Piece.text) = 0 := List.count_eq_zero.mpr hps
    rw [final_ofPieces, hnone]
    exact ⟨_, congrArg (Token.endOfText · _) (Int.add_zero line)⟩
  obtain ⟨n, hfinal⟩ := hend hps
  obtain ⟨m, hfinal'⟩ := hend hqs
  constructor
  · rw [allTokens, allTokens, List.map_append, List.map_append, hfinal, hfinal',
      tokens_of_one_line line position hps, tokens_of_one_line line position hqs, h.1]
    rfl
  · rw [faults_of_one_line line position hps, faults_of_one_line line position hqs, h.2]

end Lexed

/-! ### Where the comment is taken off -/

namespace Entry

/-- The string or the block comment that loses what closes it with the comment that is left out
of an entry. -/
def torn? (cs : List Char) : Option Piece :=
  (across (beforeComment {} cs).1.length (tile cs)).filter Piece.isDelimited

/-- A slash before what is cut off stands in a text. -/
theorem inText_of_slash {b : Balance} {cs lost : List Char}
    (h : Passes b (cs ++ ['/']) ('/' :: lost)) : (b.afterAll (cs ++ ['/'])).inText = true := by
  have hslash := (passes_append_iff.mp h).2.1
  have hopen : (b.afterAll cs).inText = true := by
    rcases hslash with hopen | hnot
    · exact hopen
    · exact absurd ⟨lost, rfl⟩ hnot
  rw [Balance.afterAll_append, Balance.afterAll_of_inText hopen (by decide)]
  exact hopen

/-- If a cut tears something, it is before a slash and outside of any text, but not behind a
single slash. -/
theorem cut_at_slash {b : Balance} {before left rest behind : List Char}
    (hpasses : Passes b (before ++ left) (rest ++ behind)) (hrest : rest ≠ [])
    (hcut : rest ++ behind = []
      ∨ (b.afterAll (before ++ left)).inText = false ∧ ['/', '/'] <+: rest ++ behind) :
    (∃ rest', rest = '/' :: rest') ∧ left ≠ ['/']
      ∧ (b.afterAll (before ++ left)).inText = false := by
  obtain ⟨d, rest, rfl⟩ := List.exists_cons_of_ne_nil hrest
  obtain ⟨hclosed, hslashes⟩ := hcut.resolve_left (List.cons_ne_nil _ _)
  obtain rfl : '/' = d := (List.cons_prefix_cons.mp hslashes).1
  refine ⟨⟨rest, rfl⟩, ?_, hclosed⟩
  rintro rfl
  rw [inText_of_slash hpasses] at hclosed
  cases hclosed

/-- On one line, nothing is behind what goes on to a line end or to the end of the text. -/
theorem eq_nil_of_head? {rest : List Char} {ps : List Piece} (h : Tiling rest ps)
    (hend : ∀ c ∈ rest.head?, c = '\n') (hline : '\n' ∉ rest) : ps = [] := by
  cases rest with
  | nil => exact h.eq_tile
  | cons c rest =>
    obtain rfl := hend c rfl
    exact absurd List.mem_cons_self hline

/-- Nothing is made of what is cut off on one line. -/
theorem readAlike_lost {lost : List Char} {ps : List Piece} (h : Tiling lost ps)
    (hlost : lost = [] ∨ ['/', '/'] <+: lost) (hline : '\n' ∉ lost) : ReadAlike [] ps := by
  rcases hlost with rfl | ⟨body, rfl⟩
  · rw [h.eq_tile]
    exact ⟨rfl, rfl⟩
  · have hbody : '\n' ∉ body := fun hmem => hline (List.mem_append_right _ hmem)
    have hcomment : (Piece.comment ('/' :: '/' :: body)).Fits [] := .lineComment hbody (by simp)
    have htiling : Tiling (['/', '/'] ++ body) [.comment ('/' :: '/' :: body)] := by
      have hcons := Tiling.cons hcomment .nil
      rwa [List.append_nil] at hcons
    rw [h.eq_tile, ← htiling.eq_tile]
    exact ⟨rfl, rfl⟩

/-- A piece of an entry is torn: what closes it is behind the place where the comment of the
entry is cut off. -/
structure Torn (cs : List Char) (before : List Piece) (p : Piece) (behind : List Piece)
    (left : List Char) : Prop where
  /-- The place of the piece. -/
  pieces : tile cs = before ++ p :: behind
  /-- The piece is closed. -/
  closed : p.isDelimited = true
  /-- The piece begins before the cut. -/
  begun : left ≠ []
  /-- The piece ends behind the cut. -/
  ended : ∃ rest, rest ≠ [] ∧ p.text = left ++ rest
  /-- No text is open at the cut. -/
  outside : (({} : Balance).afterAll (before.flatMap Piece.text ++ left)).inText = false

/-- On one line, what is kept of an entry reads like the entry, or something is torn. -/
theorem readAlike_or_torn {cs : List Char} (h : '\n' ∉ cs) :
    torn? cs = none ∧ ReadAlike (tile (beforeComment {} cs).1) (tile cs)
      ∨ ∃ before p behind left, torn? cs = some p ∧ Torn cs before p behind left
        ∧ tile (beforeComment {} cs).1 = before ++ [p.opened left] := by
  obtain ⟨lost, hsplit, hpasses, hover, hlost⟩ := beforeComment_spec {} cs
  have htiling := Tiling.tile cs
  have hline : '\n' ∉ lost := fun hmem => h (hsplit ▸ List.mem_append_right _ hmem)
  cases htiling.cut hsplit with
  | @between before behind hps hbefore hbehind hacross =>
    refine .inl ⟨by rw [torn?, hacross]; rfl, ?_⟩
    have halike := (readAlike_lost hbehind (hlost.imp_right And.right) hline).append_left before
    rwa [List.append_nil, ← hps, hbefore.eq_tile] at halike
  | @within before behind p left rest hps hkept hlost' htext hleft hrest hpieces hacross =>
    rw [hps] at htiling
    obtain ⟨hfits, hbehind⟩ := htiling.of_split
    have htorn : torn? cs = if p.isDelimited then some p else none := by
      rw [torn?, hacross]
      rfl
    rw [hover, hkept, hlost'] at hlost
    rw [hkept, hlost'] at hpasses
    obtain ⟨⟨rest, rfl⟩, hslash, houtside⟩ := cut_at_slash hpasses hrest hlost
    obtain ⟨hopened, hnone, hsame⟩ := hfits.opened htext hleft (.inl rfl) fun h => absurd h hslash
    have hkept' := (hpieces _ hopened).eq_tile
    cases hdelimited : p.isDelimited with
    | true =>
      rw [hdelimited] at htorn
      exact .inr ⟨before, p, behind, left, htorn,
        ⟨hps, hdelimited, hleft, ⟨_, hrest, htext⟩, houtside⟩, hkept'.symm⟩
    | false =>
      rw [hdelimited] at htorn
      refine .inl ⟨htorn, ?_⟩
      -- what is not closed goes on to the end of the line
      obtain ⟨htoken, hcause, hend⟩ := hsame hdelimited
      have hnil : behind = [] := by
        refine eq_nil_of_head? hbehind hend fun hmem => hline ?_
        rw [hlost']
        exact List.mem_append_right _ hmem
      rw [← hkept', hps, hnil]
      exact (ReadAlike.cons hnone htoken hcause.symm ⟨rfl, rfl⟩).append_left before

end Entry

/-! ### Block comments -/

/-- On one line, whatever has something behind it is plain but for block comments. -/
theorem Piece.Fits.isPlain {p : Piece} {rest : List Char} (h : p.Fits rest) (hrest : rest ≠ [])
    (hline : '\n' ∉ rest) (hblock : p.isBlockComment = false) : p.isPlain = true := by
  cases h with
  | operator | number | name | string | blank | stray => rfl
  | blockComment => cases hblock
  | openString | openComment => exact absurd rfl hrest
  | lineComment _ hend =>
    obtain ⟨c, rest, rfl⟩ := List.exists_cons_of_ne_nil hrest
    obtain rfl := hend c rfl
    exact absurd List.mem_cons_self hline

namespace Entry

/-- On one line, no text is open between two pieces if no block comment is before them. -/
theorem inText_afterAll {before behind : List Piece} {p : Piece} {cs : List Char}
    (h : Tiling cs (before ++ p :: behind)) (hline : '\n' ∉ cs)
    (hblock : ∀ q ∈ before, q.isBlockComment = false) {b : Balance} (hb : b.inText = false) :
    (b.afterAll (before.flatMap Piece.text)).inText = false := by
  induction before generalizing cs b with
  | nil => exact hb
  | cons q before ih =>
    obtain ⟨hq, hblock⟩ := List.forall_mem_cons.mp hblock
    cases h with
    | @cons _ rest _ hfits htiling =>
      have htiling : Tiling rest (before ++ p :: behind) := htiling
      have hrest : '\n' ∉ rest := fun hmem => hline (List.mem_append_right _ hmem)
      have hne : rest ≠ [] := by
        have hp := htiling.of_split.1.text_ne_nil
        rw [← htiling.flatMap_text]
        simp [hp]
      have hplain := hfits.isPlain hne hrest hq
      rw [List.flatMap_cons, Balance.afterAll_append, hfits.afterAll hplain hb]
      exact ih htiling hrest hblock hb

/-- Nothing is torn without a block comment: it is one, or a string behind one. -/
theorem Torn.exists_block {cs : List Char} {before behind : List Piece} {p : Piece}
    {left : List Char} (h : Torn cs before p behind left) (hline : '\n' ∉ cs) :
    ∃ q ∈ before ++ [p], q.isBlockComment = true := by
  by_contra hnot
  have hblock : ∀ q ∈ before ++ [p], q.isBlockComment = false := by
    intro q hq
    exact eq_false_of_ne_true fun hcomment => hnot ⟨q, hq, hcomment⟩
  have htiling := Tiling.tile cs
  rw [h.pieces] at htiling
  have hbefore := inText_afterAll htiling hline
    (fun q hq => hblock q (List.mem_append_left _ hq)) (b := {}) rfl
  rcases htiling.of_split.1.of_isDelimited h.closed with ⟨body, hbody, rfl⟩ | ⟨body, rfl⟩
  · -- the quote that opens the string is before the cut, the one that closes it is not
    obtain ⟨c, l, rfl⟩ := List.exists_cons_of_ne_nil h.begun
    obtain ⟨rest, hrest, htext⟩ := h.ended
    obtain ⟨d, rest, rfl⟩ := List.exists_cons_of_ne_nil hrest
    obtain ⟨rfl, htail⟩ := List.cons.inj htext
    have hl : '"' ∉ l := fun hmem =>
      hbody ((Piece.prefix_of_append_cons (Eq.symm htail)).subset hmem)
    have hopen := Balance.inText_after_quote hbefore
    have houtside := h.outside
    rw [Balance.afterAll_append, Balance.afterAll_cons, Balance.afterAll_of_inText hopen hl,
      hopen] at houtside
    cases houtside
  · cases hblock _ (List.mem_append_right _ List.mem_cons_self)

/-! ### Entries -/

theorem notMem_beforeComment {c : Char} {b : Balance} {cs : List Char} (h : c ∉ cs) :
    c ∉ (beforeComment b cs).1 := by
  obtain ⟨lost, hsplit, -⟩ := beforeComment_spec b cs
  intro hmem
  apply h
  rw [hsplit]
  exact List.mem_append_left _ hmem

/-- An entry on one line without its comment is like any pieces on one line of which the same is
made as of what is kept. -/
theorem alike_text {cs : List Char} (hline : '\n' ∉ cs) {qs : List Piece}
    (hqs : '\n' ∉ qs.flatMap Piece.text) (h : ReadAlike (tile (beforeComment {} cs).1) qs)
    (line : Int) (position : Nat) :
    Lexed.Alike (Lexed.ofText (String.ofList (ofText cs).text) line position)
      (Lexed.ofPieces line position qs) := by
  have hread : ReadAlike (tile (ofText cs).text) qs := (tile_trimEnd _).trans h
  have htext : '\n' ∉ (tile (ofText cs).text).flatMap Piece.text := by
    rw [flatMap_text_tile]
    obtain ⟨blanks, htrim, -⟩ := trimEnd_append_blanks (beforeComment {} cs).1
    intro hmem
    apply notMem_beforeComment hline
    rw [htrim]
    exact List.mem_append_left _ hmem
  rw [Lexed.ofText, String.toList_ofList]
  exact Lexed.alike_of_readAlike line position htext hqs hread

/-- **How an entry reads without its comment.**  On one line it reads as it did before unless a
string or a block comment is torn.  If one is, the pieces before it are left, and it is not
closed any more; and it is a block comment, or one is before it. -/
theorem stripped_reads {text : String} (hline : '\n' ∉ text.toList) (line : Int)
    (position : Nat) :
    (torn? text.toList = none →
      Lexed.Alike (Lexed.ofText (String.ofList (ofText text.toList).text) line position)
        (Lexed.ofText text line position))
      ∧ ∀ p, torn? text.toList = some p →
        ∃ before behind left rest, tile text.toList = before ++ p :: behind
          ∧ p.text = left ++ rest ∧ left ≠ [] ∧ rest ≠ [] ∧ (p.opened left).isOpen = true
          ∧ (∃ q ∈ before ++ [p], q.isBlockComment = true)
          ∧ Lexed.Alike (Lexed.ofText (String.ofList (ofText text.toList).text) line position)
            (Lexed.ofPieces line position (before ++ [p.opened left])) := by
  rcases readAlike_or_torn hline with
    ⟨hnone, halike⟩ | ⟨before, p, behind, left, hsome, htorn, hkept⟩
  · refine ⟨fun _ => alike_text hline ?_ halike line position, fun p hsome => ?_⟩
    · rwa [flatMap_text_tile]
    · rw [hnone] at hsome
      cases hsome
  · refine ⟨fun hnone => ?_, fun q hq => ?_⟩
    · rw [hnone] at hsome
      cases hsome
    · obtain rfl : p = q := Option.some.inj (hsome.symm.trans hq)
      obtain ⟨rest, hrest, htext⟩ := htorn.ended
      have hfits := (htorn.pieces ▸ Tiling.tile text.toList).of_split.1
      refine ⟨before, behind, left, rest, htorn.pieces, htext, htorn.begun, hrest,
        hfits.isOpen_opened htorn.closed left, htorn.exists_block hline,
        alike_text hline ?_ (hkept ▸ ⟨rfl, rfl⟩) line position⟩
      rw [← hkept, flatMap_text_tile]
      exact notMem_beforeComment hline

/-- The slashes in a string stay, and the quote in the comment opens nothing. -/
theorem stripped_reads_slashes_in_string :
    '\n' ∉ "print \"//\"; /* a */ // \"x".toList
      ∧ torn? "print \"//\"; /* a */ // \"x".toList = none
      ∧ ofText "print \"//\"; /* a */ // \"x".toList
        = ⟨"print \"//\"; /* a */".toList, false⟩
      ∧ Lexed.Alike
        (Lexed.ofText (String.ofList (ofText "print \"//\"; /* a */ // \"x".toList).text) 1 0)
        (Lexed.ofText "print \"//\"; /* a */ // \"x" 1 0) := by
  have hline : '\n' ∉ "print \"//\"; /* a */ // \"x".toList := by decide +kernel
  have hnone : torn? "print \"//\"; /* a */ // \"x".toList = none := by decide +kernel
  exact ⟨hline, hnone, by decide +kernel, (stripped_reads hline 1 0).1 hnone⟩

/-- Slashes in a block comment are taken for a comment: a complete program is left with a block
comment that is not closed. -/
theorem block_comment_torn :
    '\n' ∉ "/* // */ print nil;".toList
      ∧ torn? "/* // */ print nil;".toList = some (.comment "/* // */".toList)
      ∧ ofText "/* // */ print nil;".toList = ⟨"/*".toList, false⟩
      ∧ (Lexed.ofText "/* // */ print nil;" 1 0).faults = []
      ∧ ¬Lexed.Alike
        (Lexed.ofText (String.ofList (ofText "/* // */ print nil;".toList).text) 1 0)
        (Lexed.ofText "/* // */ print nil;" 1 0) := by
  have hstripped :
      (Lexed.ofText (String.ofList (ofText "/* // */ print nil;".toList).text) 1 0).faults
        = [⟨.openComment, 1⟩] := by decide +kernel
  have hwhole : (Lexed.ofText "/* // */ print nil;" 1 0).faults = [] := by decide +kernel
  refine ⟨by decide +kernel, by decide +kernel, by decide +kernel, hwhole, fun halike => ?_⟩
  have hfaults := halike.2
  rw [hstripped, hwhole] at hfaults
  cases hfaults

end Entry

end LoxLang
