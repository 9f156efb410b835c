import LoxLang.Proofs.Token.Uniqueness
import LoxLang.Repl.Entry

/-!
# What is open in an entry

An entry is looked at character by character: a quote opens or closes a text, braces and
parentheses count outside of texts, and two slashes outside of texts cut the rest off.  The
characters before the cut are told by what they are: no comment begins among them.  So to look
at an entry once more changes nothing.

The tokens of the entry say the same.  Without block comments the two ways to look at it are in
step: between any two pieces no text is open, and the depth is the number of opening tokens less
that of closing ones.

## Main definitions

* `Balance.afterAll` — what is open after some characters.
* `Entry.Passes` — no comment begins among some characters.
* `Piece.isBlockComment`, `Piece.isLineComment` — the two kinds of comments.
* `TokenKind.opens`, `TokenKind.closes` — braces and parentheses.

## Main results

* `Entry.beforeComment_spec` — what is kept of an entry, and what is cut off.
* `Entry.ofText_text` — to look at an entry once more changes nothing.
* `Entry.beforeComment_of_tiling` — what is open, by the pieces of the entry.
* `Entry.continues_iff` — **an entry goes on if a string is not closed or more is opened than
  closed.**
-/

namespace LoxLang

/-! ### Characters -/

namespace Balance

/-- What is open after some characters. -/
def afterAll (b : Balance) (cs : List Char) : Balance := cs.foldl after b

@[simp] theorem afterAll_nil (b : Balance) : b.afterAll [] = b := rfl

@[simp] theorem afterAll_cons (b : Balance) (c : Char) (cs : List Char) :
    b.afterAll (c :: cs) = (b.after c).afterAll cs := rfl

theorem afterAll_append (b : Balance) (cs ds : List Char) :
    b.afterAll (cs ++ ds) = (b.afterAll cs).afterAll ds := List.foldl_append

theorem after_quote (b : Balance) : b.after '"' = { b with inText := !b.inText } := by
  simp [after]

theorem inText_after_quote {b : Balance} (hb : b.inText = false) :
    (b.after '"').inText = true := by
  rw [after_quote, hb]
  rfl

/-- Within a text only a quote counts. -/
theorem afterAll_of_inText {b : Balance} (hb : b.inText = true) {cs : List Char} (h : '"' ∉ cs) :
    b.afterAll cs = b := by
  induction cs with
  | nil => rfl
  | cons c cs ih =>
    rw [List.mem_cons, not_or] at h
    have hafter : b.after c = b := by simp [after, hb, Ne.symm h.1]
    rw [afterAll_cons, hafter, ih h.2]

/-- The characters that open or close something. -/
def marks : List Char := ['"', '\x7b', '\x7d', '(', ')']

/-- A character that neither opens nor closes anything. -/
def isNeutral (c : Char) : Bool := !marks.contains c

theorem afterAll_of_isNeutral (b : Balance) {cs : List Char} (h : ∀ c ∈ cs, isNeutral c = true) :
    b.afterAll cs = b := by
  induction cs with
  | nil => rfl
  | cons c cs ih =>
    obtain ⟨hc, hcs⟩ := List.forall_mem_cons.mp h
    have hafter : b.after c = b := by
      simp only [isNeutral, marks, List.contains_cons, List.contains_nil, Bool.or_false,
        Bool.not_or, Bool.and_eq_true, Bool.not_eq_true', beq_eq_false_iff_ne] at hc
      simp [after, hc]
    rw [afterAll_cons, hafter, ih hcs]

/-- A class of characters to which none belongs that opens or closes something. -/
theorem isNeutral_of {p : Char → Bool} {c : Char} (h : p c = true)
    (hp : (marks.all fun d => !p d) = true) : isNeutral c = true := by
  rw [isNeutral, Bool.not_eq_true']
  apply eq_false_of_ne_true
  intro hmem
  have hnot := List.all_eq_true.mp hp c (List.contains_iff_mem.mp hmem)
  rw [h] at hnot
  cases hnot

theorem isNeutral_of_isBlank {c : Char} (h : isBlank c = true) : isNeutral c = true :=
  isNeutral_of h (by decide)

end Balance

/-! ### Comments -/

namespace Entry

/-- No comment begins among some characters if `rest` follows them. -/
def Passes (b : Balance) : List Char → List Char → Prop
  | [], _ => True
  | c :: cs, rest =>
      (b.inText = true ∨ ¬['/', '/'] <+: c :: (cs ++ rest)) ∧ Passes (b.after c) cs rest

theorem passes_append_iff {b : Balance} {cs ds rest : List Char} :
    Passes b (cs ++ ds) rest ↔ Passes b cs (ds ++ rest) ∧ Passes (b.afterAll cs) ds rest := by
  induction cs generalizing b with
  | nil => simp [Passes]
  | cons c cs ih =>
    show (b.inText = true ∨ ¬['/', '/'] <+: c :: (cs ++ ds ++ rest))
      ∧ Passes (b.after c) (cs ++ ds) rest ↔ _
    rw [ih, ← and_assoc, List.append_assoc]
    rfl

/-- Characters that pass do so if less of them is there, and less follows. -/
theorem Passes.of_prefix {b : Balance} {cs cs' rest rest' : List Char} (h : Passes b cs rest)
    (hcs : cs' ++ rest' <+: cs ++ rest) (hlength : cs'.length ≤ cs.length) :
    Passes b cs' rest' := by
  induction cs' generalizing b cs with
  | nil => exact True.intro
  | cons c cs' ih =>
    cases cs with
    | nil => simp at hlength
    | cons d cs =>
      obtain ⟨rfl, htail⟩ := List.cons_prefix_cons.mp hcs
      refine ⟨?_, ih h.2 htail (Nat.le_of_succ_le_succ hlength)⟩
      exact h.1.imp_right fun hnot hcomment => hnot (hcomment.trans hcs)

theorem passes_of_notMem {b : Balance} {cs : List Char} (h : '/' ∉ cs) (rest : List Char) :
    Passes b cs rest := by
  induction cs generalizing b with
  | nil => exact True.intro
  | cons c cs ih =>
    rw [List.mem_cons, not_or] at h
    refine ⟨.inr fun hcomment => ?_, ih h.2⟩
    exact h.1 (List.cons_prefix_cons.mp hcomment).1

theorem passes_of_inText {b : Balance} (hb : b.inText = true) {cs : List Char} (h : '"' ∉ cs)
    (rest : List Char) : Passes b cs rest := by
  induction cs with
  | nil => exact True.intro
  | cons c cs ih =>
    rw [List.mem_cons, not_or] at h
    have hquote : '"' ∉ [c] := by simpa using h.1
    have hafter : b.after c = b := Balance.afterAll_of_inText hb hquote
    refine ⟨.inl hb, ?_⟩
    rw [hafter]
    exact ih h.2

/-- No comment begins in a text that a quote opens. -/
theorem passes_quote {b : Balance} (hb : b.inText = false) {body : List Char} (h : '"' ∉ body)
    (rest : List Char) : Passes b ('"' :: body) rest := by
  refine ⟨.inr fun hcomment => ?_, passes_of_inText (Balance.inText_after_quote hb) h rest⟩
  exact absurd (List.cons_prefix_cons.mp hcomment).1 (by decide)

theorem beforeComment_cons {b : Balance} {c : Char} {cs : List Char}
    (h : b.inText = true ∨ ¬['/', '/'] <+: c :: cs) :
    beforeComment b (c :: cs)
      = (c :: (beforeComment (b.after c) cs).1, (beforeComment (b.after c) cs).2) := by
  have hpass : (!b.inText && ['/', '/'].isPrefixOf (c :: cs)) = false := by
    rcases h with h | h
    · rw [h]
      rfl
    · rw [Bool.and_eq_false_iff]
      exact .inr (eq_false_of_ne_true fun hcomment => h (List.isPrefixOf_iff_prefix.mp hcomment))
  rw [beforeComment, hpass]
  rfl

theorem beforeComment_of_comment {b : Balance} (hb : b.inText = false) {cs : List Char}
    (h : ['/', '/'] <+: cs) : beforeComment b cs = ([], b) := by
  obtain ⟨rest, rfl⟩ := h
  simp [beforeComment, hb]

/-- What passes is kept. -/
theorem beforeComment_append {b : Balance} {cs rest : List Char} (h : Passes b cs rest) :
    beforeComment b (cs ++ rest)
      = (cs ++ (beforeComment (b.afterAll cs) rest).1, (beforeComment (b.afterAll cs) rest).2) := by
  induction cs generalizing b with
  | nil => rfl
  | cons c cs ih => rw [List.cons_append, beforeComment_cons h.1, ih h.2, Balance.afterAll_cons,
      List.cons_append]

theorem beforeComment_of_passes {b : Balance} {cs : List Char} (h : Passes b cs []) :
    beforeComment b cs = (cs, b.afterAll cs) := by
  have hkept := beforeComment_append h
  rw [List.append_nil] at hkept
  rw [hkept, beforeComment, List.append_nil]

/-- What is kept of an entry passes, and what is cut off begins with a comment where no text is
open. -/
theorem beforeComment_spec (b : Balance) (cs : List Char) :
    ∃ cut, cs = (beforeComment b cs).1 ++ cut ∧ Passes b (beforeComment b cs).1 cut
      ∧ (beforeComment b cs).2 = b.afterAll (beforeComment b cs).1
      ∧ (cut = [] ∨ (beforeComment b cs).2.inText = false ∧ ['/', '/'] <+: cut) := by
  induction cs generalizing b with
  | nil => exact ⟨[], rfl, True.intro, rfl, .inl rfl⟩
  | cons c cs ih =>
    by_cases h : b.inText = true ∨ ¬['/', '/'] <+: c :: cs
    · obtain ⟨cut, hsplit, hpasses, hover, hcut⟩ := ih (b.after c)
      rw [beforeComment_cons h]
      refine ⟨cut, ?_, ⟨?_, hpasses⟩, hover, hcut⟩
      · rw [List.cons_append, ← hsplit]
      · rwa [← hsplit]
    · rw [not_or, not_not, Bool.not_eq_true] at h
      rw [beforeComment_of_comment h.1 h.2]
      exact ⟨c :: cs, rfl, True.intro, rfl, .inr h⟩

theorem ofText_eq {cs kept : List Char} {b : Balance} (h : beforeComment {} cs = (kept, b)) :
    ofText cs = ⟨trimEnd kept, b.isOpen⟩ := by
  rw [ofText, h]

/-- To look at an entry once more changes nothing. -/
theorem ofText_text (cs : List Char) : ofText (ofText cs).text = ofText cs := by
  obtain ⟨cut, -, hpasses, hover, -⟩ := beforeComment_spec {} cs
  generalize hkept : beforeComment {} cs = looked at hpasses hover
  obtain ⟨kept, b⟩ := looked
  dsimp only at hpasses hover
  obtain ⟨blanks, htrim, hblanks⟩ := trimEnd_append_blanks kept
  have htwice := trimEnd_trimEnd kept
  rw [ofText_eq hkept]
  generalize trimEnd kept = text at htrim htwice
  subst htrim
  -- the blanks at the end were part of what passes, and they open and close nothing
  have hstill : Passes {} text [] := by
    refine hpasses.of_prefix ?_ ?_
    · rw [List.append_nil, List.append_assoc]
      exact List.prefix_append _ _
    · simp
  have hbalance : b = ({} : Balance).afterAll text := by
    rw [hover, Balance.afterAll_append]
    exact Balance.afterAll_of_isNeutral _ fun c hc => Balance.isNeutral_of_isBlank (hblanks c hc)
  rw [ofText_eq (beforeComment_of_passes hstill), htwice, hbalance]

end Entry

/-! ### Pieces -/

/-- Braces and parentheses that open. -/
def TokenKind.opens (kind : TokenKind) : Bool := kind == .leftBrace || kind == .leftParen

/-- Braces and parentheses that close. -/
def TokenKind.closes (kind : TokenKind) : Bool := kind == .rightBrace || kind == .rightParen

/-- How much deeper it is behind a token. -/
def TokenKind.depth (kind : TokenKind) : Int :=
  if kind.opens then 1 else if kind.closes then -1 else 0

namespace Piece

/-- How much deeper it is behind a piece. -/
def depth : Piece → Int
  | token kind _ _ => kind.depth
  | _ => 0

/-- How much deeper it is behind some pieces. -/
def depths : List Piece → Int
  | [] => 0
  | p :: ps => p.depth + depths ps

@[simp] theorem depths_nil : depths [] = 0 := rfl

@[simp] theorem depths_cons (p : Piece) (ps : List Piece) :
    depths (p :: ps) = p.depth + depths ps := rfl

/-- A block comment, closed or not. -/
def isBlockComment : Piece → Bool
  | comment ('/' :: '*' :: _) => true
  | openComment _ => true
  | _ => false

/-- A comment up to a line end. -/
def isLineComment : Piece → Bool
  | comment ('/' :: '/' :: _) => true
  | _ => false

/-- A piece that is closed and no comment. -/
def isPlain : Piece → Bool
  | token _ _ _ => true
  | blank _ => true
  | stray _ => true
  | _ => false

end Piece

/-- The kind of a word opens and closes nothing. -/
theorem TokenKind.IsOf.depth_eq_zero {kind : TokenKind} {word : String} (h : kind.IsOf word) :
    kind.depth = 0 := by
  have hall : ∀ e ∈ keywords, e.2.depth = 0 := by decide
  rcases h with h | ⟨rfl, -⟩
  · exact hall _ h
  · rfl

namespace Piece

theorem afterAll_operator {cs : List Char} {kind : TokenKind} (h : (cs, kind) ∈ operators)
    {b : Balance} (hb : b.inText = false) :
    b.afterAll cs = { b with depth := b.depth + kind.depth } := by
  have hall : ∀ e ∈ operators, e.1.all Balance.isNeutral = true ∧ e.2.depth = 0
      ∨ e ∈ [(['('], .leftParen), ([')'], .rightParen), (['\x7b'], .leftBrace),
        (['\x7d'], .rightBrace)] := by decide
  rcases hall _ h with ⟨hneutral, hdepth⟩ | hmem
  · rw [Balance.afterAll_of_isNeutral b (List.all_eq_true.mp hneutral),
      show kind.depth = 0 from hdepth, Int.add_zero]
  · simp only [List.mem_cons, Prod.mk.injEq, List.not_mem_nil, or_false] at hmem
    rcases hmem with ⟨rfl, rfl⟩ | ⟨rfl, rfl⟩ | ⟨rfl, rfl⟩ | ⟨rfl, rfl⟩ <;>
      simp [Balance.after, hb, TokenKind.depth, TokenKind.opens, TokenKind.closes,
        Int.sub_eq_add_neg]

/-- Behind a plain piece no text is open, and it is deeper by the depth of the piece. -/
theorem Fits.afterAll {p : Piece} {rest : List Char} (h : p.Fits rest) (hplain : p.isPlain = true)
    {b : Balance} (hb : b.inText = false) :
    b.afterAll p.text = { b with depth := b.depth + p.depth } := by
  have hneutral : (∀ c ∈ p.text, Balance.isNeutral c = true) → p.depth = 0 →
      b.afterAll p.text = { b with depth := b.depth + p.depth } := by
    intro hall hdepth
    rw [Balance.afterAll_of_isNeutral b hall, hdepth, Int.add_zero]
  cases h with
  | operator h => exact afterAll_operator h hb
  | number h =>
    refine hneutral (fun c hc => ?_) rfl
    exact Balance.isNeutral_of (p := fun c => isDigit c || c == '.') (h.all c hc) (by decide)
  | name h _ hkind =>
    refine hneutral (fun c hc => ?_) hkind.depth_eq_zero
    exact Balance.isNeutral_of (h.all c hc) (by decide)
  | @string body _ h =>
    show b.afterAll ('"' :: (body ++ ['"'])) = _
    have hopen := Balance.inText_after_quote hb
    rw [Balance.afterAll_cons, Balance.afterAll_append, Balance.afterAll_of_inText hopen h,
      Balance.afterAll_cons, Balance.after_quote, Balance.after_quote, hb]
    simp [Piece.depth, TokenKind.depth, TokenKind.opens, TokenKind.closes]
  | blank h =>
    refine hneutral (fun d hd => ?_) rfl
    rw [List.mem_singleton.mp hd]
    exact Balance.isNeutral_of_isBlank h
  | @stray c _ hoperator _ hquote =>
    refine hneutral (fun d hd => ?_) rfl
    have hstray : (!beginsOperator c && c != '"') = true := by
      simp [beginsOperator_eq_false_of_head? hoperator, hquote]
    rw [List.mem_singleton.mp hd]
    exact Balance.isNeutral_of (p := fun c => !beginsOperator c && c != '"') hstray (by decide)
  | lineComment | blockComment | openString | openComment => cases hplain

/-- No comment begins in a plain piece. -/
theorem Fits.passes {p : Piece} {rest : List Char} (h : p.Fits rest) (hplain : p.isPlain = true)
    {b : Balance} (hb : b.inText = false) : Entry.Passes b p.text rest := by
  cases h with
  | @operator kind cs _ h _ hslash =>
    by_cases hmem : '/' ∈ cs
    · have hall : ∀ e ∈ operators, '/' ∈ e.1 → e = (['/'], .slash) := by decide
      obtain ⟨rfl, rfl⟩ := Prod.mk.inj (hall _ h hmem)
      refine ⟨.inr fun hcomment => ?_, True.intro⟩
      obtain ⟨t, rfl⟩ := (List.cons_prefix_cons.mp hcomment).2
      exact (hslash rfl '/' rfl).1 rfl
    · exact Entry.passes_of_notMem hmem rest
  | number h =>
    refine Entry.passes_of_notMem (fun hmem => ?_) rest
    exact absurd (h.all _ hmem) (by decide)
  | name h =>
    refine Entry.passes_of_notMem (fun hmem => ?_) rest
    exact absurd (h.all _ hmem) (by decide)
  | @string body _ h =>
    show Entry.Passes b (('"' :: body) ++ ['"']) rest
    exact Entry.passes_append_iff.mpr
      ⟨Entry.passes_quote hb h _, Entry.passes_of_notMem (by decide) rest⟩
  | blank h =>
    refine Entry.passes_of_notMem (fun hmem => ?_) rest
    rw [← List.mem_singleton.mp hmem] at h
    exact absurd h (by decide)
  | stray hoperator =>
    refine Entry.passes_of_notMem (fun hmem => ?_) rest
    rw [← List.mem_singleton.mp hmem] at hoperator
    exact absurd rfl (hoperator (['/'], .slash) (by decide))
  | lineComment | blockComment | openString | openComment => cases hplain

end Piece

/-! ### Entries by their pieces -/

namespace Entry

/-- What is open in an entry without block comments, whose line comment is its last piece. -/
theorem beforeComment_of_tiling {cs : List Char} {ps : List Piece} (h : Tiling cs ps)
    (hblock : ∀ p ∈ ps, p.isBlockComment = false)
    (hline : ∀ p ∈ ps.dropLast, p.isLineComment = false) {b : Balance} (hb : b.inText = false) :
    (beforeComment b cs).2 = ⟨b.depth + Piece.depths ps, ps.any Piece.isOpen⟩ := by
  induction h generalizing b with
  | nil => simp [beforeComment, ← hb]
  | @cons p rest ps hp h ih =>
    obtain ⟨hp', hblock⟩ := List.forall_mem_cons.mp hblock
    have hlast : p.isLineComment = true → ps = [] := by
      intro hcomment
      by_contra hne
      rw [List.dropLast_cons_of_ne_nil hne] at hline
      rw [hline p List.mem_cons_self] at hcomment
      cases hcomment
    by_cases hplain : p.isPlain = true
    · -- both ways to look at the entry go on behind the piece
      have hrest : ∀ q ∈ ps.dropLast, q.isLineComment = false := by
        intro q hq
        refine hline q ?_
        cases ps with
        | nil => exact hq
        | cons q' ps => exact List.mem_cons_of_mem p hq
      have hclosed : p.isOpen = false := by
        cases p with
        | token | blank | stray => rfl
        | comment | openString | openComment => cases hplain
      have hbehind : ({ b with depth := b.depth + p.depth } : Balance).inText = false := hb
      rw [beforeComment_append (hp.passes hplain hb), hp.afterAll hplain hb]
      show (beforeComment { b with depth := b.depth + p.depth } rest).2 = _
      rw [ih hblock hrest hbehind]
      simp [hclosed, Int.add_assoc]
    · cases hp with
      | operator | number | name | string | blank | stray => exact absurd rfl hplain
      | blockComment | openComment => cases hp'
      | @lineComment body =>
        obtain rfl := hlast rfl
        have hcomment : ['/', '/'] <+: '/' :: '/' :: body ++ rest := ⟨body ++ rest, rfl⟩
        show (beforeComment b ('/' :: '/' :: body ++ rest)).2 = _
        rw [beforeComment_of_comment hb hcomment]
        simp [Piece.depth, Piece.isOpen, ← hb]
      | @openString body hbody =>
        obtain rfl := h.eq_tile
        show (beforeComment b ('"' :: body ++ [])).2 = ⟨b.depth + (0 + 0), true⟩
        have hopen := Balance.inText_after_quote hb
        rw [beforeComment_append (passes_quote hb hbody []), Balance.afterAll_cons,
          Balance.afterAll_of_inText hopen hbody, beforeComment, Balance.after_quote, hb]
        simp

/-- The depth behind pieces is the number of opening tokens less that of closing ones. -/
theorem depths_eq (line : Int) (position : Nat) (ps : List Piece) :
    Piece.depths ps
      = (Lexed.ofPieces line position ps).tokens.countP (·.kind.opens)
        - (Lexed.ofPieces line position ps).tokens.countP (·.kind.closes) := by
  induction ps generalizing line position with
  | nil => rfl
  | cons p ps ih =>
    rw [Piece.depths_cons, ih (line + Lexed.lineEnds p.text) (position + p.text.length)]
    cases p with
    | token kind cs literal =>
      have hapart : ¬(kind.opens = true ∧ kind.closes = true) := by cases kind <;> decide
      simp only [Lexed.ofPieces, Lexed.cons, List.countP_cons, Piece.depth, TokenKind.depth]
      by_cases hopens : kind.opens = true <;> by_cases hcloses : kind.closes = true <;>
        simp [hopens, hcloses] at hapart ⊢ <;> omega
    | blank | comment | stray | openString | openComment => exact Int.zero_add _

/-- Without block comments, a piece is not closed if the string fault is among the faults. -/
theorem any_isOpen_iff (line : Int) (position : Nat) {ps : List Piece}
    (hblock : ∀ p ∈ ps, p.isBlockComment = false) :
    ps.any Piece.isOpen = true
      ↔ ∃ f ∈ (Lexed.ofPieces line position ps).faults, f.cause = .openString := by
  have hcauses : (∃ f ∈ (Lexed.ofPieces line position ps).faults, f.cause = .openString)
      ↔ .openString ∈ ps.filterMap Piece.cause? := by
    rw [← Lexed.faults_ofPieces line position, List.mem_map]
  rw [hcauses, List.any_eq_true, List.mem_filterMap]
  refine exists_congr fun p => and_congr_right fun hp => ?_
  cases p with
  | openString => exact iff_of_true rfl rfl
  | openComment => cases hblock _ hp
  | token | blank | comment | stray => simp [Piece.isOpen, Piece.cause?]

end Entry

/-- No other cause is worded like that of a string without its closing quote. -/
theorem LexCause.message_eq_iff (cause : LexCause) :
    cause.message = "Unterminated string." ↔ cause = .openString := by
  cases cause with
  | openString => exact iff_of_true rfl rfl
  | openComment => exact iff_of_false (by decide) (by decide)
  | stray c =>
    refine iff_of_false (fun h => ?_) LexCause.noConfusion
    change "Unexpected character '" ++ String.singleton c ++ "'." = "Unterminated string." at h
    have hlength := congrArg String.length h
    rw [String.length_append, String.length_append, String.length_singleton] at hlength
    have hne : ¬"Unexpected character '".length + 1 + "'.".length
        = "Unterminated string.".length := by decide
    exact hne hlength

namespace Entry

/-- **An entry goes on if a string is not closed or more is opened than closed.**  The entry has
no block comment, and a line comment in it is its last piece.  Whether it goes on is decided as
its tokens and faults say.  What is left of it, without the comment and the blanks at its end,
is an entry from which nothing is left out, and it goes on if the entry does. -/
theorem continues_iff {text : String} (hblock : ∀ p ∈ tile text.toList, p.isBlockComment = false)
    (hline : ∀ p ∈ (tile text.toList).dropLast, p.isLineComment = false) (line : Int)
    (position : Nat) :
    ((ofText text.toList).continues = true
      ↔ (∃ f ∈ (Lexed.ofText text line position).faults,
          f.cause.message = "Unterminated string.")
        ∨ (Lexed.ofText text line position).allTokens.countP (·.kind.closes)
          < (Lexed.ofText text line position).allTokens.countP (·.kind.opens))
      ∧ ofText (ofText text.toList).text = ofText text.toList := by
  refine ⟨?_, ofText_text _⟩
  have hbalance := beforeComment_of_tiling (Tiling.tile text.toList) hblock hline (b := {}) rfl
  have hfinal : (Lexed.ofText text line position).final.kind = .eof :=
    Lexed.kind_final_ofPieces line position _
  have hcount : ∀ p : TokenKind → Bool, p .eof = false →
      (Lexed.ofText text line position).allTokens.countP (fun t => p t.kind)
        = (Lexed.ofText text line position).tokens.countP (fun t => p t.kind) := by
    intro p hp
    simp [Lexed.allTokens, hfinal, hp]
  have hcontinues : (ofText text.toList).continues = (beforeComment {} text.toList).2.isOpen := rfl
  rw [hcount TokenKind.opens rfl, hcount TokenKind.closes rfl, hcontinues, hbalance,
    depths_eq line position, Balance.isOpen, Bool.or_eq_true, any_isOpen_iff line position hblock,
    or_comm]
  simp only [LexCause.message_eq_iff, decide_eq_true_eq]
  refine or_congr Iff.rfl ?_
  show 0 + _ > (0 : Int) ↔ _
  rw [Lexed.ofText]
  omega

/-- A comment mark and a parenthesis in a string over two lines count for nothing, and neither
does the parenthesis in the comment: the entry goes on, and it still does without the comment. -/
theorem continues_iff_string_over_lines :
    (∀ p ∈ tile "f(\"//\n)\" // )".toList, p.isBlockComment = false)
      ∧ (∀ p ∈ (tile "f(\"//\n)\" // )".toList).dropLast, p.isLineComment = false)
      ∧ (ofText "f(\"//\n)\" // )".toList).continues = true
      ∧ ofText (ofText "f(\"//\n)\" // )".toList).text = ofText "f(\"//\n)\" // )".toList := by
  have hblock : ∀ p ∈ tile "f(\"//\n)\" // )".toList, p.isBlockComment = false := by
    decide +kernel
  have hline : ∀ p ∈ (tile "f(\"//\n)\" // )".toList).dropLast, p.isLineComment = false := by
    decide +kernel
  obtain ⟨hcontinues, hagain⟩ := continues_iff hblock hline 1 0
  refine ⟨hblock, hline, hcontinues.mpr (.inr ?_), hagain⟩
  decide +kernel

end Entry

end LoxLang
