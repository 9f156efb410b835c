import LoxLang.Token.Lexer

/-!
# Texts that are joined at a line end

A line end stands in no piece of a text but a string, a comment, or by itself.  If two texts
are joined at one, the pieces of the first are what they were before, unless it ends inside
a string or a block comment; and the pieces of the second are what they would be on lines of
their own.

## Main definitions

* `Piece.isOpen` — a piece takes the rest of its text, because it is not closed.
* `Lexed.append` — the tokens of two texts, one after the other.

## Main results

* `tile_join` — the pieces of joined texts.
* `Lexed.ofText_join` — the tokens of joined texts.
-/

namespace LoxLang

/-- What is taken while a condition holds ends at the latest where it does not hold. -/
theorem takeWhile_join {p : Char → Bool} {c : Char} (hc : p c = false) (cs ds : List Char) :
    (cs ++ c :: ds).takeWhile p = cs.takeWhile p := by
  induction cs with
  | nil => simp [hc]
  | cons d cs ih =>
    cases hd : p d with
    | true => simp [hd, ih]
    | false => simp [hd]

theorem dropWhile_join {p : Char → Bool} {c : Char} (hc : p c = false) (cs ds : List Char) :
    (cs ++ c :: ds).dropWhile p = cs.dropWhile p ++ c :: ds := by
  induction cs with
  | nil => simp [hc]
  | cons d cs ih =>
    cases hd : p d with
    | true => simp [hd, ih]
    | false => simp [hd]

namespace Piece

/-- A piece that takes the rest of its text, because it is not closed. -/
def isOpen : Piece → Bool
  | openString _ => true
  | openComment _ => true
  | _ => false

/-! ### The first piece -/

theorem throughCommentEnd_append {cs body : List Char} (h : throughCommentEnd cs = some body)
    (ds : List Char) : throughCommentEnd (cs ++ ds) = some body := by
  fun_induction throughCommentEnd cs generalizing body with
  | case1 => cases h
  | case2 cs =>
    rw [← h]
    rfl
  | case3 c cs hne ih =>
    obtain ⟨rest, hrest, rfl⟩ := Option.map_eq_some_iff.mp h
    have hne' : ∀ es, c = '*' → cs ++ ds = '/' :: es → False := by
      intro es hc hes
      cases cs with
      | nil => simp [throughCommentEnd] at hrest
      | cons d cs => exact hne cs hc (by rw [List.cons_append, List.cons.injEq] at hes; rw [hes.1])
    rw [List.cons_append, throughCommentEnd, ih hrest]
    · rfl
    · exact hne'

theorem afterSlash_join {cs : List Char} (h : (afterSlash cs).isOpen = false) (ds : List Char) :
    afterSlash (cs ++ '\n' :: ds) = afterSlash cs := by
  cases cs with
  | nil => rfl
  | cons c cs =>
    by_cases hslash : c = '/'
    · subst hslash
      have hstop : ('\n' != '\n') = false := by decide
      simp only [List.cons_append, afterSlash, takeWhile_join (p := (· != '\n')) hstop]
    · by_cases hstar : c = '*'
      · subst hstar
        cases hbody : throughCommentEnd cs with
        | none => simp [afterSlash, hbody, isOpen] at h
        | some body =>
          simp only [List.cons_append, afterSlash, hbody, throughCommentEnd_append hbody]
      · simp [afterSlash, hslash, hstar]

theorem afterQuote_join {cs : List Char} (h : (afterQuote cs).isOpen = false) (ds : List Char) :
    afterQuote (cs ++ '\n' :: ds) = afterQuote cs := by
  have hstop : (cs.takeWhile (· != '"')).length ≠ cs.length := by
    intro hlen
    rw [afterQuote, if_pos hlen] at h
    cases h
  have hbody : (cs ++ '\n' :: ds).takeWhile (· != '"') = cs.takeWhile (· != '"') := by
    rw [List.takeWhile_append, if_neg hstop]
  have hle : (cs.takeWhile (· != '"')).length ≤ cs.length := (List.takeWhile_prefix _).length_le
  have hstop' : (cs.takeWhile (· != '"')).length ≠ (cs ++ '\n' :: ds).length := by
    rw [List.length_append, List.length_cons]
    omega
  unfold afterQuote
  dsimp only
  rw [hbody, if_neg hstop, if_neg hstop']

theorem fraction_join (cs ds : List Char) : fraction (cs ++ '\n' :: ds) = fraction cs := by
  cases cs with
  | nil => rfl
  | cons c cs =>
    by_cases hdot : c = '.'
    · subst hdot
      exact takeWhile_join (by decide) cs ds
    · simp [fraction, hdot]

theorem afterDigit_join (c : Char) (cs ds : List Char) :
    afterDigit c (cs ++ '\n' :: ds) = afterDigit c cs := by
  have hstop : isDigit '\n' = false := by decide
  unfold afterDigit
  dsimp only
  rw [takeWhile_join hstop, dropWhile_join hstop, fraction_join]

theorem afterNameStart_join (c : Char) (cs ds : List Char) :
    afterNameStart c (cs ++ '\n' :: ds) = afterNameStart c cs := by
  have hstop : continuesName '\n' = false := by decide +kernel
  unfold afterNameStart
  rw [takeWhile_join hstop]

theorem afterComparison_join (c : Char) (withEqual alone : TokenKind) (cs ds : List Char) :
    afterComparison c withEqual alone (cs ++ '\n' :: ds)
      = afterComparison c withEqual alone cs := by
  cases cs with
  | nil => rfl
  | cons d cs =>
    unfold afterComparison
    split <;> simp_all

/-- A piece that is closed ends before a line end, or with what closes it. -/
theorem first_join {c : Char} {cs : List Char} (h : (first c cs).isOpen = false)
    (ds : List Char) : first c (cs ++ '\n' :: ds) = first c cs := by
  unfold first at h ⊢
  split
  · rfl
  · next hmark =>
    rw [hmark] at h
    split
    · exact afterComparison_join c _ _ cs ds
    · next hcomparison =>
      rw [hcomparison] at h
      dsimp only at h
      split
      · next hc =>
        rw [if_pos hc] at h
        exact afterSlash_join h ds
      · next hslash =>
        rw [if_neg hslash] at h
        split
        · rfl
        · next hblank =>
          rw [if_neg hblank] at h
          split
          · next hc =>
            rw [if_pos hc] at h
            exact afterQuote_join h ds
          · split
            · exact afterDigit_join c cs ds
            · split
              · exact afterNameStart_join c cs ds
              · rfl

end Piece

/-! ### All pieces -/

/-- The pieces of a text, one by one. -/
theorem tile_cons (c : Char) (cs : List Char) :
    ∃ rest, (Piece.first c cs).text ++ rest = c :: cs ∧ rest.length ≤ cs.length
      ∧ tile (c :: cs) = Piece.first c cs :: tile rest := by
  obtain ⟨rest, hrest⟩ := Piece.text_first_isPrefixOf c cs
  have hpos : 0 < (Piece.first c cs).text.length :=
    List.length_pos_iff.mpr (Piece.text_first_ne_nil c cs)
  have hlen : (Piece.first c cs).text.length + rest.length = cs.length + 1 := by
    rw [← List.length_append, hrest, List.length_cons]
  have hdrop : cs.drop ((Piece.first c cs).text.length - 1) = rest := by
    calc cs.drop ((Piece.first c cs).text.length - 1)
        = (c :: cs).drop ((Piece.first c cs).text.length - 1 + 1) := rfl
      _ = ((Piece.first c cs).text ++ rest).drop (Piece.first c cs).text.length := by
          rw [hrest, Nat.sub_add_cancel hpos]
      _ = rest := List.drop_left
  refine ⟨rest, hrest, by omega, ?_⟩
  rw [tile, tileFrom, tileFrom_eq_tile_drop, hdrop]

/-- The pieces of texts that are joined at a line end. -/
theorem tile_join {cs : List Char} (h : ∀ p ∈ tile cs, p.isOpen = false) (ds : List Char) :
    tile (cs ++ '\n' :: ds) = tile cs ++ .blank '\n' :: tile ds := by
  induction hn : cs.length using Nat.strongRecOn generalizing cs with
  | _ n ih =>
    cases cs with
    | nil => rfl
    | cons c cs =>
      obtain ⟨rest, htext, hlen, htile⟩ := tile_cons c cs
      rw [htile, List.forall_mem_cons] at h
      have hfirst := Piece.first_join h.1 ds
      obtain ⟨rest', htext', -, htile'⟩ := tile_cons c (cs ++ '\n' :: ds)
      -- the first piece is the same, so what is left is the rest of the first text, joined
      have hrest : rest' = rest ++ '\n' :: ds := by
        rw [hfirst] at htext'
        refine List.append_cancel_left (htext'.trans ?_)
        rw [← List.append_assoc, htext, List.cons_append]
      have hlt : rest.length < n := by
        rw [← hn, List.length_cons]
        omega
      rw [List.cons_append, htile', hfirst, hrest, ih rest.length hlt h.2 rfl, htile,
        List.cons_append]

/-! ### Tokens -/

namespace Lexed

/-- The tokens of two texts, one after the other. -/
def append (l r : Lexed) : Lexed := ⟨l.tokens ++ r.tokens, r.final, l.faults ++ r.faults⟩

theorem cons_append (line : Int) (position : Nat) (p : Piece) (l r : Lexed) :
    cons line position p (l.append r) = (cons line position p l).append r := by
  cases p <;> rfl

theorem ofPieces_append (line : Int) (position : Nat) (ps qs : List Piece) :
    ofPieces line position (ps ++ qs)
      = (ofPieces line position ps).append
          (ofPieces (line + lineEnds (ps.flatMap Piece.text))
            (position + (ps.flatMap Piece.text).length) qs) := by
  induction ps generalizing line position with
  | nil => simp [ofPieces, append, lineEnds]
  | cons p ps ih =>
    have hline : line + lineEnds ((p :: ps).flatMap Piece.text)
        = line + lineEnds p.text + lineEnds (ps.flatMap Piece.text) := by
      rw [List.flatMap_cons, lineEnds, List.count_append]
      unfold lineEnds
      omega
    have hposition : position + ((p :: ps).flatMap Piece.text).length
        = position + p.text.length + (ps.flatMap Piece.text).length := by
      rw [List.flatMap_cons, List.length_append]
      omega
    rw [List.cons_append, ofPieces, ih, cons_append, hline, hposition]
    rfl

/-- A piece that is not closed is a fault. -/
theorem isOpen_eq_false_of_faults {line : Int} {position : Nat} {ps : List Piece}
    (h : (ofPieces line position ps).faults = []) : ∀ p ∈ ps, p.isOpen = false := by
  induction ps generalizing line position with
  | nil => exact fun p hp => absurd hp List.not_mem_nil
  | cons p ps ih =>
    rw [ofPieces] at h
    have hparts : (ofPieces (line + lineEnds p.text) (position + p.text.length) ps).faults = []
        ∧ p.isOpen = false := by
      cases p with
      | token | blank | comment => exact ⟨h, rfl⟩
      | stray | openString | openComment => cases h
    exact List.forall_mem_cons.mpr ⟨hparts.2, ih hparts.1⟩

/-- The tokens of texts that are joined at a line end, if nothing is wrong with the first. -/
theorem ofText_join {text : String} {line : Int} {position : Nat}
    (h : (ofText text line position).faults = []) (text' : String) :
    ofText (text ++ "\n" ++ text') line position
      = (ofText text line position).append
          (ofText text' (line + lineEnds text.toList + 1) (position + text.length + 1)) := by
  have hjoin : (text ++ "\n" ++ text').toList = text.toList ++ '\n' :: text'.toList := by
    simp
  unfold ofText at h ⊢
  rw [hjoin, tile_join (isOpen_eq_false_of_faults h), ofPieces_append, flatMap_text_tile,
    String.length_toList]
  rfl

end Lexed

end LoxLang
