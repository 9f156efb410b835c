import LoxLang.Proofs.Token.Uniqueness

/-!
# Texts that are cut off

If only the beginning of a text is there, its pieces are those that end before the cut, and
what is left of the piece across which the cut goes.  At a blank or at a slash only strings and
comments can be cut.  What is left of a line comment is a line comment, and what is left of a
string or of a block comment is one that is not closed.  So the tokens and the faults before the
cut are what they were, and they are all there are unless a string or a block comment has lost
what closes it.

## Main definitions

* `across` — the piece across which a cut goes.
* `Piece.isDelimited` — a string or a block comment with what closes it.
* `Piece.opened` — what is left of a piece that is cut.

## Main results

* `Tiling.cut` — the pieces of the beginning of a text.
* `Piece.Fits.opened` — what is left of a piece is a piece.
* `tile_trimEnd` — tokens and faults stay the same without the blanks at the end.
-/

namespace LoxLang

/-! ### Pieces before less text -/

theorem Longest.of_prefix {IsWord : List Char → Prop} {cs text text' : List Char}
    (h : Longest IsWord cs text) (htext : text' <+: text) : Longest IsWord cs text' :=
  fun w hw hbegins => h w hw (hbegins.trans htext)

/-- A piece is of its class also if less text follows. -/
theorem Piece.Fits.of_prefix {p : Piece} {rest rest' : List Char} (h : p.Fits rest)
    (hrest : rest' <+: rest) : p.Fits rest' := by
  have hhead : ∀ c ∈ rest'.head?, c ∈ rest.head? := by
    intro c hc
    obtain ⟨cs, rfl⟩ := List.head?_eq_some_iff.mp hc
    obtain ⟨t, rfl⟩ := hrest
    rfl
  cases h with
  | operator h hlongest hslash =>
    refine .operator h (hlongest.of_prefix ((List.prefix_append_right_inj _).mpr hrest)) ?_
    exact fun hkind c hc => hslash hkind c (hhead c hc)
  | number h hlongest =>
    exact .number h (hlongest.of_prefix ((List.prefix_append_right_inj _).mpr hrest))
  | name h hlongest hkind =>
    exact .name h (hlongest.of_prefix ((List.prefix_append_right_inj _).mpr hrest)) hkind
  | string h => exact .string h
  | blank h => exact .blank h
  | lineComment h hend => exact .lineComment h fun c hc => hend c (hhead c hc)
  | blockComment h => exact .blockComment h
  | stray hoperator hblank hquote hdigit hname =>
    exact .stray hoperator hblank hquote hdigit hname
  | openString h =>
    rw [List.prefix_nil.mp hrest]
    exact .openString h
  | openComment h =>
    rw [List.prefix_nil.mp hrest]
    exact .openComment h

/-! ### The piece that is cut -/

/-- The piece across which a cut behind `n` characters goes, if it does not go between two
pieces. -/
def across (n : Nat) : List Piece → Option Piece
  | [] => none
  | p :: ps =>
      if n = 0 then none
      else if n < p.text.length then some p
      else across (n - p.text.length) ps

/-- How the pieces of a text lie to a cut that leaves the characters `kept` of it. -/
inductive Cut (kept lost : List Char) (ps : List Piece) : Prop
  /-- The cut goes between two pieces. -/
  | between {before behind : List Piece} (hps : ps = before ++ behind)
      (hbefore : Tiling kept before) (hbehind : Tiling lost behind)
      (hacross : across kept.length ps = none)
  /-- The cut goes across a piece. -/
  | within {before behind : List Piece} {p : Piece} {left torn : List Char}
      (hps : ps = before ++ p :: behind) (hkept : kept = before.flatMap Piece.text ++ left)
      (hlost : lost = torn ++ behind.flatMap Piece.text) (htext : p.text = left ++ torn)
      (hleft : left ≠ []) (htorn : torn ≠ [])
      (hpieces : ∀ qs, Tiling left qs → Tiling kept (before ++ qs))
      (hacross : across kept.length ps = some p)

/-- The pieces of the beginning of a text are those before the cut, and those of what is left
of the piece across which the cut goes. -/
theorem Tiling.cut {cs : List Char} {ps : List Piece} (h : Tiling cs ps) {kept lost : List Char}
    (hcs : cs = kept ++ lost) : Cut kept lost ps := by
  induction h generalizing kept with
  | nil =>
    obtain ⟨rfl, rfl⟩ := List.append_eq_nil_iff.mp hcs.symm
    exact .between (List.nil_append []).symm .nil .nil rfl
  | @cons p rest ps hp h ih =>
    have hpos : 0 < p.text.length := List.length_pos_iff.mpr hp.text_ne_nil
    by_cases hle : p.text.length ≤ kept.length
    · -- the cut goes behind the first piece
      obtain ⟨kept, rfl⟩ : p.text <+: kept := by
        refine List.prefix_of_prefix_length_le (List.prefix_append _ rest) ?_ hle
        exact ⟨lost, hcs.symm⟩
      have hrest : rest = kept ++ lost := by
        rw [List.append_assoc] at hcs
        exact List.append_cancel_left hcs
      have hfits : p.Fits kept := hp.of_prefix ⟨lost, hrest.symm⟩
      have hacross : across (p.text ++ kept).length (p :: ps) = across kept.length ps := by
        rw [across, if_neg (by rw [List.length_append]; omega), if_neg (Nat.not_lt.mpr hle),
          List.length_append, Nat.add_sub_cancel_left]
      cases ih hrest with
      | @between before behind hps hbefore hbehind hnone =>
        have hps' : p :: ps = (p :: before) ++ behind := by rw [hps, List.cons_append]
        exact .between hps' (.cons hfits hbefore) hbehind (hacross.trans hnone)
      | @within before behind q left torn hps hkept hlost htext hleft htorn hpieces hsome =>
        have hps' : p :: ps = (p :: before) ++ q :: behind := by rw [hps, List.cons_append]
        refine .within hps' ?_ hlost htext hleft htorn
          (fun qs hqs => .cons hfits (hpieces qs hqs)) (hacross.trans hsome)
        rw [List.flatMap_cons, List.append_assoc, ← hkept]
    · by_cases hnil : kept = []
      · subst hnil
        refine .between (List.nil_append _).symm .nil ?_ rfl
        rw [show lost = p.text ++ rest from hcs.symm]
        exact .cons hp h
      · -- the cut goes across the first piece
        obtain ⟨torn, htext⟩ : kept <+: p.text := by
          refine List.prefix_of_prefix_length_le ⟨lost, hcs.symm⟩ (List.prefix_append _ rest) ?_
          omega
        have hlost : lost = torn ++ rest := by
          rw [← htext, List.append_assoc] at hcs
          exact (List.append_cancel_left hcs).symm
        have htorn : torn ≠ [] := by
          rintro rfl
          rw [List.append_nil] at htext
          exact hle (by rw [htext])
        refine .within (List.nil_append _).symm (List.nil_append _).symm ?_ htext.symm hnil htorn
          (fun qs hqs => hqs) ?_
        · rw [hlost, h.flatMap_text]
        · rw [across, if_neg (by simpa using hnil), if_pos (Nat.lt_of_not_le hle)]

/-! ### What is left of a piece -/

namespace Piece

/-- A string or a block comment with what closes it. -/
def isDelimited : Piece → Bool
  | token .string _ _ => true
  | comment ('/' :: '*' :: _) => true
  | _ => false

/-- What is left of a string or a comment that is cut. -/
def opened (left : List Char) : Piece → Piece
  | comment ('/' :: '*' :: _) => openComment left
  | comment _ => comment left
  | openComment _ => openComment left
  | _ => openString left

/-- What stands before a character of a text and its last one stands before the last one. -/
theorem prefix_of_append_cons {l torn body : List Char} {d e : Char}
    (h : l ++ d :: torn = body ++ [e]) : l <+: body := by
  refine List.prefix_of_prefix_length_le ⟨d :: torn, h⟩ (List.prefix_append body [e]) ?_
  have hlength := congrArg List.length h
  simp only [List.length_append, List.length_cons, List.length_nil] at hlength
  omega

/-- A block comment is not cut before its star. -/
theorem exists_of_star {l body torn : List Char} {d : Char} (hd : d = '/' ∨ isBlank d = true)
    (h : '*' :: body = l ++ d :: torn) : ∃ l', l = '*' :: l' ∧ body = l' ++ d :: torn := by
  cases l with
  | nil =>
    rw [← (List.cons.inj h).1] at hd
    exact absurd hd (by decide)
  | cons c l =>
    obtain ⟨rfl, hbody⟩ := List.cons.inj h
    exact ⟨l, rfl, hbody⟩

/-- What is left of a string or a comment that is cut at a slash or a blank character, but not
between the two slashes of a line comment, is a piece; and nothing else can be cut there.  If it
has lost nothing that closed it, it means what it did, and ended at a line end or with the text. -/
theorem Fits.opened {p : Piece} {rest left torn : List Char} {d : Char} (h : p.Fits rest)
    (htext : p.text = left ++ d :: torn) (hleft : left ≠ []) (hd : d = '/' ∨ isBlank d = true)
    (hslashes : left = ['/'] → d ≠ '/') :
    Tiling left [p.opened left] ∧ (p.opened left).token? = none
      ∧ (p.isDelimited = false → p.token? = none ∧ p.cause? = (p.opened left).cause?
        ∧ ∀ c ∈ rest.head?, c = '\n') := by
  have hlast : (p.opened left).text = left → (p.opened left).Fits [] →
      Tiling left [p.opened left] := by
    intro htext hfits
    have htiling := Tiling.cons hfits .nil
    rwa [htext, List.append_nil] at htiling
  obtain ⟨c, l, rfl⟩ := List.exists_cons_of_ne_nil hleft
  cases h with
  | @operator kind cs _ h =>
    have hall : ∀ e ∈ operators, (e.1.tail.all fun d => d != '/' && !isBlank d) = true := by
      decide
    have hmem : d ∈ cs.tail := by rw [show cs = c :: l ++ d :: torn from htext]; simp
    have hinner := List.all_eq_true.mp (hall _ h) d hmem
    rw [Bool.and_eq_true, bne_iff_ne, Bool.not_eq_true'] at hinner
    simp [hinner.1, hinner.2] at hd
  | @number cs ds _ places h =>
    have hmem : d ∈ cs := by rw [show cs = c :: l ++ d :: torn from htext]; simp
    have hdigit := h.all d hmem
    rcases hd with rfl | hblank
    · cases hdigit
    · rw [Bool.or_eq_true, beq_iff_eq] at hdigit
      rcases hdigit with hdigit | rfl
      · rw [isBlank_eq_false_of_isDigit hdigit] at hblank
        cases hblank
      · cases hblank
  | @name kind cs _ h =>
    have hmem : d ∈ cs := by rw [show cs = c :: l ++ d :: torn from htext]; simp
    have hname := h.all d hmem
    rcases hd with rfl | hblank
    · exact absurd hname (by decide)
    · rw [isBlank_eq_false_of_continuesName hname] at hblank
      cases hblank
  | @string body _ h =>
    obtain ⟨rfl, htail⟩ := List.cons.inj htext
    have hl := prefix_of_append_cons (Eq.symm htail)
    refine ⟨hlast rfl (.openString fun hmem => h (hl.subset hmem)), rfl, fun hclosed => ?_⟩
    cases hclosed
  | blank | stray =>
    have hlength := congrArg List.length htext
    simp [text] at hlength
  | @lineComment body _ h hend =>
    cases l with
    | nil =>
      obtain ⟨rfl, htail⟩ := List.cons.inj htext
      exact absurd (List.cons.inj htail).1.symm (hslashes rfl)
    | cons c' l =>
      obtain ⟨rfl, htail⟩ := List.cons.inj htext
      obtain ⟨rfl, rfl⟩ := List.cons.inj htail
      refine ⟨hlast rfl (.lineComment (fun hmem => h ?_) (by simp)), rfl,
        fun _ => ⟨rfl, rfl, hend⟩⟩
      exact List.mem_append_left _ hmem
  | @blockComment body _ h =>
    obtain ⟨rfl, htail⟩ := List.cons.inj htext
    obtain ⟨l, rfl, hbody⟩ := exists_of_star hd htail
    have hl := prefix_of_append_cons (hbody.symm.trans (List.append_assoc body ['*'] ['/']).symm)
    refine ⟨hlast rfl (.openComment fun hcloses => h (hcloses.trans hl.isInfix)), rfl,
      fun hclosed => ?_⟩
    cases hclosed
  | openString h =>
    obtain ⟨rfl, rfl⟩ := List.cons.inj htext
    refine ⟨hlast rfl (.openString fun hmem => h ?_), rfl, fun _ => ⟨rfl, rfl, by simp⟩⟩
    exact List.mem_append_left _ hmem
  | openComment h =>
    obtain ⟨rfl, htail⟩ := List.cons.inj htext
    obtain ⟨l, rfl, rfl⟩ := exists_of_star hd htail
    refine ⟨hlast rfl (.openComment fun hcloses => h ?_), rfl, fun _ => ⟨rfl, rfl, by simp⟩⟩
    exact hcloses.trans (List.prefix_append l _).isInfix

/-- The pieces that are closed by a mark are strings and block comments. -/
theorem Fits.of_isDelimited {p : Piece} {rest : List Char} (h : p.Fits rest)
    (hclosed : p.isDelimited = true) :
    (∃ body, '"' ∉ body
        ∧ p = .token .string ('"' :: body ++ ['"']) (.text (String.ofList body)))
      ∨ ∃ body, p = .comment ('/' :: '*' :: body ++ ['*', '/']) := by
  have htoken : ∀ kind cs literal, (Piece.token kind cs literal).isDelimited = true →
      kind = .string := by
    intro kind cs literal hkind
    unfold isDelimited at hkind
    split at hkind
    · next heq => exact (Piece.token.inj heq).1
    · next heq => cases heq
    · cases hkind
  cases h with
  | operator h =>
    have hall : ∀ e ∈ operators, e.2 ≠ .string := by decide
    exact absurd (htoken _ _ _ hclosed) (hall _ h)
  | name h _ hkind =>
    have hall : ∀ e ∈ keywords, e.2 ≠ .string := by decide
    obtain rfl := htoken _ _ _ hclosed
    rcases hkind with hmem | ⟨heq, -⟩
    · exact absurd rfl (hall _ hmem)
    · cases heq
  | string h => exact .inl ⟨_, h, rfl⟩
  | blockComment h => exact .inr ⟨_, rfl⟩
  | number | blank | lineComment | stray | openString | openComment => cases hclosed

/-- What is left of a string or a block comment is not closed. -/
theorem Fits.isOpen_opened {p : Piece} {rest : List Char} (h : p.Fits rest)
    (hclosed : p.isDelimited = true) (left : List Char) : (p.opened left).isOpen = true := by
  rcases h.of_isDelimited hclosed with ⟨body, -, rfl⟩ | ⟨body, rfl⟩ <;> rfl

/-- What closes a string or a block comment is not blank. -/
theorem Fits.exists_not_blank {p : Piece} {rest left torn : List Char} (h : p.Fits rest)
    (hclosed : p.isDelimited = true) (htext : p.text = left ++ torn) (htorn : torn ≠ []) :
    ∃ c ∈ torn, isBlank c = false := by
  have hlast : torn.getLast? = p.text.getLast? := by
    rw [htext, List.getLast?_append, Option.or_of_isSome]
    rwa [List.getLast?_isSome]
  rcases h.of_isDelimited hclosed with ⟨body, -, rfl⟩ | ⟨body, rfl⟩
  · refine ⟨'"', List.mem_of_getLast? (hlast.trans ?_), by decide⟩
    exact List.getLast?_concat
  · refine ⟨'/', List.mem_of_getLast? (hlast.trans ?_), by decide⟩
    show ('/' :: '*' :: body ++ ['*', '/']).getLast? = some '/'
    rw [List.getLast?_append]
    rfl

end Piece

/-! ### Blanks at the end -/

/-- The same tokens and the same faults are made of some pieces. -/
def ReadAlike (ps qs : List Piece) : Prop :=
  ps.filterMap Piece.token? = qs.filterMap Piece.token?
    ∧ ps.filterMap Piece.cause? = qs.filterMap Piece.cause?

theorem ReadAlike.trans {ps qs rs : List Piece} (h : ReadAlike ps qs) (h' : ReadAlike qs rs) :
    ReadAlike ps rs := ⟨h.1.trans h'.1, h.2.trans h'.2⟩

theorem ReadAlike.append_left {ps qs : List Piece} (h : ReadAlike ps qs) (before : List Piece) :
    ReadAlike (before ++ ps) (before ++ qs) := by
  unfold ReadAlike
  simp only [List.filterMap_append, h.1, h.2, and_self]

/-- Pieces that are no tokens and have the same fault may stand for each other. -/
theorem ReadAlike.cons {p q : Piece} {ps qs : List Piece} (hp : p.token? = none)
    (hq : q.token? = none) (hcause : p.cause? = q.cause?) (h : ReadAlike ps qs) :
    ReadAlike (p :: ps) (q :: qs) := by
  constructor
  · rw [List.filterMap_cons_none hp, List.filterMap_cons_none hq, h.1]
  · rw [List.filterMap_cons, List.filterMap_cons, hcause, h.2]

theorem tile_blanks {bs : List Char} (h : ∀ b ∈ bs, isBlank b = true) :
    tile bs = bs.map Piece.blank := by
  have htiling : Tiling bs (bs.map Piece.blank) := by
    induction bs with
    | nil => exact .nil
    | cons b bs ih =>
      obtain ⟨hb, hbs⟩ := List.forall_mem_cons.mp h
      exact .cons (.blank hb) (ih hbs)
  exact htiling.eq_tile.symm

/-- Nothing is made of blanks. -/
theorem readAlike_blanks {bs : List Char} {ps : List Piece} (h : Tiling bs ps)
    (hblanks : ∀ b ∈ bs, isBlank b = true) : ReadAlike [] ps := by
  rw [h.eq_tile, tile_blanks hblanks]
  constructor
  · simp [List.filterMap_map, Piece.token?]
  · simp [List.filterMap_map, Piece.cause?]

/-- Tokens and faults stay the same without the blanks at the end. -/
theorem tile_trimEnd (cs : List Char) : ReadAlike (tile (trimEnd cs)) (tile cs) := by
  obtain ⟨blanks, hcs, hblanks⟩ := trimEnd_append_blanks cs
  have htiling := Tiling.tile cs
  generalize tile cs = ps at htiling
  cases htiling.cut hcs with
  | @between before behind hps hbefore hbehind _ =>
    have halike := (readAlike_blanks hbehind hblanks).append_left before
    rwa [List.append_nil, ← hps, hbefore.eq_tile] at halike
  | @within before behind p left torn hps _ hlost htext hleft htorn hpieces _ =>
    subst hps
    obtain ⟨hfits, hbehind⟩ := htiling.of_split
    have hopen : p.isDelimited = false := by
      apply eq_false_of_ne_true
      intro hclosed
      obtain ⟨c, hc, hnot⟩ := hfits.exists_not_blank hclosed htext htorn
      rw [hblanks c (hlost ▸ List.mem_append_left _ hc)] at hnot
      cases hnot
    obtain ⟨d, torn, rfl⟩ := List.exists_cons_of_ne_nil htorn
    have hd : isBlank d = true := hblanks d (by rw [hlost]; simp)
    have hslash : d ≠ '/' := by
      rintro rfl
      cases hd
    obtain ⟨hleft, hnone, hsame⟩ := hfits.opened htext hleft (.inr hd) fun _ => hslash
    obtain ⟨htoken, hcause, -⟩ := hsame hopen
    have hnothing := readAlike_blanks hbehind fun b hb =>
      hblanks b (hlost ▸ List.mem_append_right _ hb)
    rw [← (hpieces _ hleft).eq_tile]
    exact (hnothing.cons hnone htoken hcause.symm).append_left before

end LoxLang
