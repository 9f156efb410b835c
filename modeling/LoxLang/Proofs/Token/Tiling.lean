import LoxLang.Proofs.Token.Joining
import LoxLang.Proofs.Token.Reserved
import Mathlib.Data.List.TakeWhile

/-!
# The pieces of a text by their classes

The classes of pieces, said without the way in which a text is cut: the operators are those of
a table, numbers and names are given by the characters they consist of, a string ends at its
first quote, and a comment at the line end or at its first closing mark.  A text is tiled by
pieces if each of them is of a class, and operators, numbers and names are the longest of
their class with which the text goes on.

The pieces into which a text is cut tile it.  The tokens are those of the pieces, in order,
and each stands in the text where its position says; the faults are those of the pieces that
are no part of a program; and the last token, and no other, is that of the end.

## Main definitions

* `operators`, `Numeral`, `IsName` — the classes of which the longest piece is taken.
* `Piece.Fits` — a piece is of a class, before the rest of a text.
* `Tiling` — the pieces of a text, one after the other.

## Main results

* `Piece.fits_first` — the first piece of a text is of a class.
* `Tiling.tile` — the pieces of a text tile it.
* `Lexed.ofText_tiles` — **the tokens and the faults of a text are those of its pieces.**
-/

namespace LoxLang

/-! ### Classes -/

/-- The marks and operators. -/
def operators : List (List Char × TokenKind) :=
  [(['('], .leftParen), ([')'], .rightParen), (['\x7b'], .leftBrace), (['\x7d'], .rightBrace),
   ([','], .comma), (['.'], .dot), (['-'], .minus), (['+'], .plus), ([';'], .semicolon),
   ([':'], .colon), (['?'], .question), (['*'], .star), (['/'], .slash), (['!'], .bang),
   (['!', '='], .bangEqual), (['='], .equal), (['=', '='], .equalEqual), (['<'], .less),
   (['<', '='], .lessEqual), (['>'], .greater), (['>', '='], .greaterEqual)]

/-- A number: its text, its digits, and how many of them stand behind the point. -/
inductive Numeral : List Char → List Char → Nat → Prop
  /-- Digits only. -/
  | whole {ds : List Char} (hne : ds ≠ []) (hds : ∀ d ∈ ds, isDigit d = true) : Numeral ds ds 0
  /-- Digits on both sides of a point. -/
  | decimal {ds es : List Char} (hds : ∀ d ∈ ds, isDigit d = true) (hds' : ds ≠ [])
      (hes : ∀ e ∈ es, isDigit e = true) (hes' : es ≠ []) :
      Numeral (ds ++ '.' :: es) (ds ++ es) es.length

/-- A word that may be a name or reserved. -/
def IsName (cs : List Char) : Prop :=
  ∃ c w, cs = c :: w ∧ Piece.beginsName c = true ∧ ∀ d ∈ w, Piece.continuesName d = true

/-- The kind of a word: that which stands beside it if it is reserved, and that of names
otherwise. -/
def TokenKind.IsOf (kind : TokenKind) (word : String) : Prop :=
  (word, kind) ∈ keywords ∨ kind = .identifier ∧ ∀ k, (word, k) ∉ keywords

/-- No word of a class with which a text begins is longer than `cs`. -/
def Longest (IsWord : List Char → Prop) (cs text : List Char) : Prop :=
  ∀ w, IsWord w → w <+: text → w.length ≤ cs.length

/-- A piece is of a class, before the rest of a text. -/
inductive Piece.Fits : Piece → List Char → Prop
  /-- The longest operator; a slash does not begin a comment. -/
  | operator {kind : TokenKind} {cs rest : List Char} (h : (cs, kind) ∈ operators)
      (hlongest : Longest (fun w => ∃ k, (w, k) ∈ operators) cs (cs ++ rest))
      (hslash : kind = .slash → ∀ c ∈ rest.head?, c ≠ '/' ∧ c ≠ '*') :
      Fits (.token kind cs .nil) rest
  /-- The longest number. -/
  | number {cs ds rest : List Char} {places : Nat} (h : Numeral cs ds places)
      (hlongest : Longest (fun w => ∃ es n, Numeral w es n) cs (cs ++ rest)) :
      Fits (.token .number cs (.number (numberOfDigits ds places))) rest
  /-- The longest name, which may be a reserved word. -/
  | name {kind : TokenKind} {cs rest : List Char} (h : IsName cs)
      (hlongest : Longest IsName cs (cs ++ rest)) (hkind : kind.IsOf (String.ofList cs)) :
      Fits (.token kind cs .nil) rest
  /-- A string, up to its first quote. -/
  | string {body rest : List Char} (h : '"' ∉ body) :
      Fits (.token .string ('"' :: body ++ ['"']) (.text (String.ofList body))) rest
  /-- A blank character. -/
  | blank {c : Char} {rest : List Char} (h : isBlank c = true) : Fits (.blank c) rest
  /-- A comment up to the line end, which is no part of it. -/
  | lineComment {body rest : List Char} (h : '\n' ∉ body) (hrest : ∀ c ∈ rest.head?, c = '\n') :
      Fits (.comment ('/' :: '/' :: body)) rest
  /-- A comment up to the first mark that closes it. -/
  | blockComment {body rest : List Char} (h : ¬['*', '/'] <:+: body ++ ['*']) :
      Fits (.comment ('/' :: '*' :: body ++ ['*', '/'])) rest
  /-- A character with which no other piece begins. -/
  | stray {c : Char} {rest : List Char} (hoperator : ∀ e ∈ operators, e.1.head? ≠ some c)
      (hblank : isBlank c = false) (hquote : c ≠ '"') (hdigit : isDigit c = false)
      (hname : beginsName c = false) : Fits (.stray c) rest
  /-- A string that the text does not close. -/
  | openString {body : List Char} (h : '"' ∉ body) : Fits (.openString ('"' :: body)) []
  /-- A comment that the text does not close. -/
  | openComment {body : List Char} (h : ¬['*', '/'] <:+: body) :
      Fits (.openComment ('/' :: '*' :: body)) []

/-- A text is made up of pieces, each of them of a class. -/
inductive Tiling : List Char → List Piece → Prop
  | nil : Tiling [] []
  | cons {p : Piece} {rest : List Char} {ps : List Piece} (hp : p.Fits rest)
      (h : Tiling rest ps) : Tiling (p.text ++ rest) (p :: ps)

/-! ### The longest piece -/

/-- A word of a kind of characters is no longer than all of them at the beginning. -/
theorem length_le_takeWhile {p : Char → Bool} {w cs : List Char} (hw : ∀ c ∈ w, p c = true)
    (h : w <+: cs) : w.length ≤ (cs.takeWhile p).length := by
  obtain ⟨t, rfl⟩ := h
  rw [List.takeWhile_append_of_pos hw, List.length_append]
  omega

/-- A bound on the operators that begin like a text is one on those the text begins with. -/
theorem longest_operators {c : Char} {cs text : List Char} {n : Nat} (hn : n ≤ cs.length)
    (h : ∀ e ∈ operators, e.1.head? = some c → e.1 <+: c :: text → e.1.length ≤ n) :
    Longest (fun w => ∃ k, (w, k) ∈ operators) cs (c :: text) := by
  rintro w ⟨k, hk⟩ hw
  rcases List.prefix_cons_iff.mp hw with rfl | ⟨t, rfl, -⟩
  · exact Nat.zero_le _
  · exact (h _ hk rfl hw).trans hn

namespace Piece

theorem mark?_eq_some {c : Char} {kind : TokenKind} (h : mark? c = some kind) :
    ([c], kind) ∈ operators ∧ kind ≠ .slash
      ∧ ∀ e ∈ operators, e.1.head? = some c → e.1.length ≤ 1 := by
  unfold mark? at h
  split at h <;> cases h <;> decide

theorem comparison?_eq_some {c : Char} {kind alone : TokenKind}
    (h : comparison? c = some (kind, alone)) :
    ([c, '='], kind) ∈ operators ∧ ([c], alone) ∈ operators ∧ kind ≠ .slash ∧ alone ≠ .slash
      ∧ ∀ e ∈ operators, e.1.head? = some c → e.1 = [c] ∨ e.1 = [c, '='] := by
  unfold comparison? at h
  split at h <;> cases h <;> decide

theorem fits_mark {c : Char} {kind : TokenKind} (h : mark? c = some kind) (rest : List Char) :
    Fits (.token kind [c] .nil) rest := by
  obtain ⟨hmem, hslash, hlength⟩ := mark?_eq_some h
  refine .operator hmem (longest_operators le_rfl fun e he hc _ => hlength e he hc) ?_
  exact fun heq => absurd heq hslash

theorem fits_afterComparison {c : Char} {kind alone : TokenKind} {cs rest : List Char}
    (hc : comparison? c = some (kind, alone))
    (h : (afterComparison c kind alone cs).text ++ rest = c :: cs) :
    (afterComparison c kind alone cs).Fits rest := by
  obtain ⟨hmem, halone, hslash, hslash', hoperators⟩ := comparison?_eq_some hc
  revert h
  fun_cases afterComparison c kind alone cs with
  | case1 ds =>
    intro h
    refine .operator hmem (longest_operators le_rfl fun e he hc _ => ?_)
      fun heq => absurd heq hslash
    rcases hoperators e he hc with heq | heq <;> simp [heq]
  | case2 cs hother =>
    intro h
    obtain rfl : rest = cs := by simpa [text] using h
    refine .operator halone (longest_operators le_rfl fun e he hc hprefix => ?_)
      fun heq => absurd heq hslash'
    rcases hoperators e he hc with heq | heq
    · simp [heq]
    · -- the text does not go on with an equals sign
      rw [heq] at hprefix
      obtain ⟨t, ht⟩ := hprefix
      exact absurd (List.cons.inj ht).2.symm (hother t)

theorem closes_of_throughCommentEnd {cs body : List Char}
    (h : throughCommentEnd cs = some body) :
    ∃ b, body = b ++ ['*', '/'] ∧ ¬['*', '/'] <:+: b ++ ['*'] := by
  have hprefix := throughCommentEnd_isPrefixOf h
  fun_induction throughCommentEnd cs generalizing body with
  | case1 => cases h
  | case2 cs =>
    cases h
    exact ⟨[], rfl, by decide⟩
  | case3 c cs hnot ih =>
    obtain ⟨b, hb, rfl⟩ := Option.map_eq_some_iff.1 h
    have hcs := throughCommentEnd_isPrefixOf hb
    obtain ⟨b, rfl, hfirst⟩ := ih hb hcs
    refine ⟨c :: b, rfl, fun hinfix => ?_⟩
    rcases List.infix_cons_iff.mp hinfix with ⟨t, ht⟩ | hinfix
    · -- the mark would stand at the beginning of the text
      obtain ⟨hc, htail⟩ := List.cons.inj ht
      obtain ⟨u, rfl⟩ := hcs
      cases b with
      | nil => cases htail
      | cons d b =>
        obtain ⟨hd, -⟩ := List.cons.inj htail
        refine hnot (b ++ ['*', '/'] ++ u) hc.symm ?_
        rw [← hd]
        rfl
    · exact hfirst hinfix

theorem not_closes_of_throughCommentEnd {cs : List Char} (h : throughCommentEnd cs = none) :
    ¬['*', '/'] <:+: cs := by
  fun_induction throughCommentEnd cs with
  | case1 => decide
  | case2 => cases h
  | case3 c cs hnot ih =>
    intro hinfix
    rcases List.infix_cons_iff.mp hinfix with ⟨t, ht⟩ | hinfix
    · obtain ⟨hc, htail⟩ := List.cons.inj ht
      exact hnot t hc.symm htail.symm
    · exact ih (Option.map_eq_none_iff.mp h) hinfix

theorem fits_afterSlash {cs rest : List Char} (h : (afterSlash cs).text ++ rest = '/' :: cs) :
    (afterSlash cs).Fits rest := by
  revert h
  fun_cases afterSlash cs with
  | case1 cs =>
    intro h
    have hrest : rest = cs.dropWhile (· != '\n') := by
      have hsplit : cs.takeWhile (· != '\n') ++ rest = cs := by simpa [text] using h
      refine List.append_cancel_left (hsplit.trans ?_)
      exact List.takeWhile_append_dropWhile.symm
    refine .lineComment (fun hmem => ?_) fun c hc => ?_
    · simpa using List.mem_takeWhile_imp hmem
    · have hstop := List.head?_dropWhile_not (· != '\n') cs
      rw [← hrest, hc] at hstop
      simpa using hstop
  | case2 cs body hbody =>
    intro h
    obtain ⟨b, rfl, hfirst⟩ := closes_of_throughCommentEnd hbody
    exact .blockComment hfirst
  | case3 cs hnone =>
    intro h
    obtain rfl : rest = [] := by simpa [text] using h
    exact .openComment (not_closes_of_throughCommentEnd hnone)
  | case4 cs hline hblock =>
    intro h
    obtain rfl : rest = cs := by simpa [text] using h
    have hlength : ∀ e ∈ operators, e.1.head? = some '/' → e.1.length ≤ 1 := by decide
    refine .operator (by decide) (longest_operators le_rfl fun e he hc _ => hlength e he hc) ?_
    intro _ c hc
    obtain ⟨ds, rfl⟩ := List.head?_eq_some_iff.mp hc
    exact ⟨fun heq => hline ds (by rw [heq]), fun heq => hblock ds (by rw [heq])⟩

theorem fits_afterQuote {cs rest : List Char} (h : (afterQuote cs).text ++ rest = '"' :: cs) :
    (afterQuote cs).Fits rest := by
  have hbody : '"' ∉ cs.takeWhile (· != '"') := by
    intro hmem
    simpa using List.mem_takeWhile_imp hmem
  revert h
  unfold afterQuote
  dsimp only
  split
  · next hlength =>
    intro h
    obtain rfl : rest = [] := by simpa [text] using h
    rw [(List.takeWhile_prefix _).eq_of_length hlength] at hbody
    exact .openString hbody
  · exact fun _ => .string hbody

theorem fits_afterNameStart {c : Char} {cs rest : List Char} (hc : beginsName c = true)
    (h : (afterNameStart c cs).text ++ rest = c :: cs) : (afterNameStart c cs).Fits rest := by
  have htext : (c :: cs.takeWhile continuesName) ++ rest = c :: cs := h
  refine .name ⟨c, _, rfl, hc, fun d hd => List.mem_takeWhile_imp hd⟩ ?_ ?_
  · rw [htext]
    rintro _ ⟨d, w, rfl, -, hw⟩ hprefix
    obtain ⟨-, hprefix⟩ := List.cons_prefix_cons.mp hprefix
    exact Nat.succ_le_succ (length_le_takeWhile hw hprefix)
  · cases hword : keyword? (String.ofList (c :: cs.takeWhile continuesName)) with
    | some kind => exact .inl (mem_keywords hword)
    | none =>
      refine .inr ⟨rfl, fun k hk => ?_⟩
      rw [keyword?, List.lookup_eq_none_iff] at hword
      simpa using hword _ hk

/-- The digits before the point, and what follows them. -/
theorem digits_of_decimal {ds es t cs : List Char} (hds : ∀ d ∈ ds, isDigit d = true)
    (h : ds ++ '.' :: es ++ t = cs) :
    cs.takeWhile isDigit = ds ∧ cs.dropWhile isDigit = '.' :: (es ++ t) := by
  have hpoint : isDigit '.' = false := by decide
  rw [← h, List.append_assoc, List.cons_append]
  rw [takeWhile_join hpoint, dropWhile_join hpoint, List.takeWhile_eq_self_iff.mpr hds,
    List.dropWhile_eq_nil_iff.mpr hds]
  exact ⟨rfl, rfl⟩

/-- A number at the beginning of a text is no longer than its digits, and the fraction behind
them if there is one. -/
theorem length_numeral_le {w es cs : List Char} {n : Nat} (hw : Numeral w es n) (h : w <+: cs) :
    w.length ≤ (cs.takeWhile isDigit).length
      ∨ fraction (cs.dropWhile isDigit) ≠ []
        ∧ w.length ≤ (cs.takeWhile isDigit).length + 1
          + (fraction (cs.dropWhile isDigit)).length := by
  cases hw with
  | whole hne hds => exact .inl (length_le_takeWhile hds h)
  | @decimal ds es hds hds' hes hes' =>
    obtain ⟨t, ht⟩ := h
    obtain ⟨htake, hdrop⟩ := digits_of_decimal hds ht
    have hle := length_le_takeWhile hes (List.prefix_append es t)
    have hfraction : fraction (cs.dropWhile isDigit) = (es ++ t).takeWhile isDigit := by
      rw [hdrop]
      rfl
    rw [hfraction, htake, List.length_append, List.length_cons]
    refine .inr ⟨fun hnil => ?_, by omega⟩
    rw [hnil] at hle
    exact hes' (List.length_eq_zero_iff.mp (Nat.le_zero.mp hle))

theorem isDigit_of_mem_fraction {cs : List Char} {d : Char} (h : d ∈ fraction cs) :
    isDigit d = true := by
  unfold fraction at h
  split at h
  · exact List.mem_takeWhile_imp h
  · cases h

theorem fits_afterDigit {c : Char} {cs rest : List Char} (hc : isDigit c = true)
    (h : (afterDigit c cs).text ++ rest = c :: cs) : (afterDigit c cs).Fits rest := by
  have htake : (c :: cs).takeWhile isDigit = c :: cs.takeWhile isDigit := by simp [hc]
  have hdrop : (c :: cs).dropWhile isDigit = cs.dropWhile isDigit := by simp [hc]
  have hds : ∀ d ∈ c :: cs.takeWhile isDigit, isDigit d = true := by
    rw [← htake]
    exact fun d hd => List.mem_takeWhile_imp hd
  revert h
  unfold afterDigit
  dsimp only
  split
  · next hnil =>
    intro h
    refine .number (.whole (List.cons_ne_nil _ _) hds) ?_
    rintro w ⟨es, n, hw⟩ hprefix
    rw [show (c :: cs.takeWhile isDigit) ++ rest = c :: cs from h] at hprefix
    rcases length_numeral_le hw hprefix with hle | ⟨hne, -⟩
    · rwa [htake] at hle
    · rw [hdrop] at hne
      exact absurd hnil hne
  · next part hpart =>
    intro h
    refine .number (.decimal hds (List.cons_ne_nil _ _) (fun d hd => isDigit_of_mem_fraction hd)
      hpart) ?_
    rintro w ⟨es, n, hw⟩ hprefix
    rw [show c :: cs.takeWhile isDigit ++ '.' :: fraction (cs.dropWhile isDigit) ++ rest = c :: cs
      from h] at hprefix
    have hle := length_numeral_le hw hprefix
    rw [htake, hdrop] at hle
    simp only [List.length_append, List.length_cons] at hle ⊢
    rcases hle with hle | ⟨-, hle⟩ <;> omega

/-- A character with which an operator may begin. -/
def beginsOperator (c : Char) : Bool :=
  (mark? c).isSome || (comparison? c).isSome || c == '/'

theorem start_of_mem_operators {e : List Char × TokenKind} (he : e ∈ operators) {c : Char}
    (hc : e.1.head? = some c) : beginsOperator c = true := by
  have hall : ∀ e ∈ operators, e.1.head?.all beginsOperator = true := by decide
  have hstart := hall e he
  rwa [hc] at hstart

/-- The first piece of a text is of a class. -/
theorem fits_first {c : Char} {cs rest : List Char} (h : (first c cs).text ++ rest = c :: cs) :
    (first c cs).Fits rest := by
  revert h
  unfold first
  split
  · next kind hmark => exact fun _ => fits_mark hmark rest
  next hmark =>
  split
  · next kind alone hcomparison => exact fits_afterComparison hcomparison
  next hcomparison =>
  split
  · next hslash =>
    obtain rfl := eq_of_beq hslash
    exact fits_afterSlash
  next hslash =>
  split
  · next hblank => exact fun _ => .blank hblank
  next hblank =>
  split
  · next hquote =>
    obtain rfl := eq_of_beq hquote
    exact fits_afterQuote
  next hquote =>
  split
  · next hdigit => exact fits_afterDigit hdigit
  next hdigit =>
  split
  · next hname => exact fits_afterNameStart hname
  next hname =>
  refine fun _ => .stray (fun e he hc => ?_) (eq_false_of_ne_true hblank)
    (by simpa using hquote) (eq_false_of_ne_true hdigit)
    (eq_false_of_ne_true hname)
  have hstart := start_of_mem_operators he hc
  rw [beginsOperator, hmark, hcomparison] at hstart
  exact hslash hstart

/-- No piece is a token for the end of the text. -/
theorem Fits.kind_ne_eof {kind : TokenKind} {cs rest : List Char} {literal : Literal}
    (h : (Piece.token kind cs literal).Fits rest) : kind ≠ .eof := by
  have hoperators : ∀ e ∈ operators, e.2 ≠ .eof := by decide
  have hkeywords : ∀ e ∈ keywords, e.2 ≠ .eof := by decide
  cases h with
  | operator h => exact hoperators _ h
  | number | string => exact TokenKind.noConfusion
  | name _ _ hkind =>
    rcases hkind with hmem | ⟨rfl, -⟩
    · exact hkeywords _ hmem
    · exact TokenKind.noConfusion

/-! ### What is made of a piece -/

/-- The kind, the text and the constant of a token. -/
def token? : Piece → Option (TokenKind × String × Literal)
  | .token kind cs literal => some (kind, String.ofList cs, literal)
  | _ => none

/-- What is wrong with a piece. -/
def cause? : Piece → Option LexCause
  | .stray c => some (.stray c)
  | .openString _ => some .openString
  | .openComment _ => some .openComment
  | _ => none

end Piece

/-! ### All pieces -/

/-- The pieces of a text tile it. -/
theorem Tiling.tile (cs : List Char) : Tiling cs (tile cs) := by
  induction hn : cs.length using Nat.strongRecOn generalizing cs with
  | _ n ih =>
    cases cs with
    | nil => exact .nil
    | cons c cs =>
      obtain ⟨rest, htext, hlen, htile⟩ := tile_cons c cs
      have hlt : rest.length < n := by
        rw [← hn, List.length_cons]
        omega
      have htiling := Tiling.cons (Piece.fits_first htext) (ih rest.length hlt rest rfl)
      rwa [htext, ← htile] at htiling

theorem Tiling.kind_ne_eof {cs : List Char} {ps : List Piece} (h : Tiling cs ps)
    {kind : TokenKind} {word : List Char} {literal : Literal}
    (hp : .token kind word literal ∈ ps) : kind ≠ .eof := by
  induction h with
  | nil => exact absurd hp List.not_mem_nil
  | cons hfits _ ih =>
    rcases List.mem_cons.mp hp with rfl | hp
    · exact hfits.kind_ne_eof
    · exact ih hp

namespace Lexed

variable (line : Int) (position : Nat)

/-- The tokens are those of the pieces, in order. -/
theorem tokens_ofPieces (ps : List Piece) :
    (ofPieces line position ps).tokens.map (fun t => (t.kind, t.lexeme, t.literal))
      = ps.filterMap Piece.token? := by
  induction ps generalizing line position with
  | nil => rfl
  | cons p ps ih =>
    have hps := ih (line + lineEnds p.text) (position + p.text.length)
    cases p with
    | token kind cs literal => exact congrArg (List.cons (kind, String.ofList cs, literal)) hps
    | blank | comment | stray | openString | openComment => exact hps

/-- The faults are those of the pieces, in order. -/
theorem faults_ofPieces (ps : List Piece) :
    (ofPieces line position ps).faults.map LexFault.cause = ps.filterMap Piece.cause? := by
  induction ps generalizing line position with
  | nil => rfl
  | cons p ps ih =>
    have hps := ih (line + lineEnds p.text) (position + p.text.length)
    cases p with
    | token | blank | comment => exact hps
    | stray c => exact congrArg (List.cons (.stray c)) hps
    | openString => exact congrArg (List.cons .openString) hps
    | openComment => exact congrArg (List.cons .openComment) hps

/-- The token for the end stands behind the pieces. -/
theorem final_ofPieces (ps : List Piece) :
    (ofPieces line position ps).final
      = .endOfText (line + lineEnds (ps.flatMap Piece.text))
          (position + (ps.flatMap Piece.text).length) := by
  have happend := ofPieces_append line position ps []
  rw [List.append_nil] at happend
  rw [happend]
  rfl

/-- Each token stands where its position says. -/
theorem exists_split_of_mem_ofPieces {ps : List Piece} {t : Token}
    (ht : t ∈ (ofPieces line position ps).tokens) :
    ∃ before behind, ps.flatMap Piece.text = before ++ t.lexeme.toList ++ behind
      ∧ t.position = position + before.length := by
  induction ps generalizing line position with
  | nil => exact absurd ht List.not_mem_nil
  | cons p ps ih =>
    have hlater : t ∈ (ofPieces (line + lineEnds p.text) (position + p.text.length) ps).tokens →
        ∃ before behind, (p :: ps).flatMap Piece.text = before ++ t.lexeme.toList ++ behind
          ∧ t.position = position + before.length := by
      intro ht
      obtain ⟨before, behind, htext, hposition⟩ := ih _ _ ht
      refine ⟨p.text ++ before, behind, ?_, ?_⟩
      · rw [List.flatMap_cons, htext]
        simp only [List.append_assoc]
      · rw [hposition, List.length_append, Nat.add_assoc]
    cases p with
    | token kind cs literal =>
      rcases List.mem_cons.mp ht with rfl | ht
      · exact ⟨[], ps.flatMap Piece.text, by simp [Piece.text], rfl⟩
      · exact hlater ht
    | blank | comment | stray | openString | openComment => exact hlater ht

/-- **A text is cut into its pieces, and they are the longest ones.**  For every text there are
pieces that tile it.  The tokens are those of the pieces that are tokens, in the same order, and
each is the part of the text that begins at its position; the faults are one for each piece that
is no part of a program; and the token for the end comes last, behind the text, and only once. -/
theorem ofText_tiles (text : String) :
    ∃ pieces, Tiling text.toList pieces
      ∧ (ofText text line position).tokens.map (fun t => (t.kind, t.lexeme, t.literal))
        = pieces.filterMap Piece.token?
      ∧ (ofText text line position).faults.map LexFault.cause = pieces.filterMap Piece.cause?
      ∧ (∀ t ∈ (ofText text line position).tokens, ∃ before behind,
        text.toList = before ++ t.lexeme.toList ++ behind
          ∧ t.position = position + before.length)
      ∧ ∃ final, (ofText text line position).allTokens
          = (ofText text line position).tokens ++ [final]
        ∧ final.kind = .eof ∧ final.lexeme = "" ∧ final.position = position + text.length
        ∧ ∀ t ∈ (ofText text line position).tokens, t.kind ≠ .eof := by
  have htiling := Tiling.tile text.toList
  refine ⟨tile text.toList, htiling, tokens_ofPieces line position _,
    faults_ofPieces line position _, fun t ht => ?_, (ofText text line position).final, rfl, ?_⟩
  · obtain ⟨before, behind, htext, hposition⟩ := exists_split_of_mem_ofPieces line position ht
    rw [flatMap_text_tile] at htext
    exact ⟨before, behind, htext, hposition⟩
  · rw [ofText, final_ofPieces, flatMap_text_tile]
    refine ⟨rfl, rfl, rfl, fun t ht => ?_⟩
    obtain ⟨word, hmem, -⟩ := mem_of_mem_ofPieces ht
    exact htiling.kind_ne_eof hmem

-- a comment that ends in two stars, the longest operators, and a string that is not closed
example : tile "/***/<==ors\"a\n//".toList
    = [.comment "/***/".toList, .token .lessEqual ['<', '='] .nil, .token .equal ['='] .nil,
      .token .identifier ['o', 'r', 's'] .nil, .openString "\"a\n//".toList] := by
  decide +kernel

end Lexed

end LoxLang
