import LoxLang.Proofs.Token.Tiling

/-!
# A text is tiled in one way

The classes of pieces are told apart by the character with which a piece begins; only the
slash begins pieces of several classes, and there the next character decides.  Within a class
the longest piece, or the one that ends at the first closing mark, is determined by the text.
So the pieces that tile a text are those into which it is cut.

## Main results

* `Piece.isBlank_eq_false_of_continuesName` — no blank character stands in a name.
* `Piece.Fits.eq_first` — a piece of a class is the first piece of its text.
* `tiling_iff` — **a text is tiled by its pieces and in no other way.**
-/

namespace LoxLang

/-! ### Classes of characters -/

theorem toNat_of_isAlpha {c : Char} (h : c.isAlpha = true) :
    65 ≤ c.toNat ∧ c.toNat ≤ 90 ∨ 97 ≤ c.toNat ∧ c.toNat ≤ 122 := by
  unfold Char.isAlpha Char.isUpper Char.isLower at h
  simp only [Bool.or_eq_true, Bool.and_eq_true, decide_eq_true_eq, ge_iff_le,
    UInt32.le_iff_toNat_le] at h
  exact h

theorem toNat_of_isDigit {c : Char} (h : isDigit c = true) :
    48 ≤ c.toNat ∧ c.toNat ≤ 57 := by
  rw [isDigit, Bool.and_eq_true, decide_eq_true_eq, decide_eq_true_eq] at h
  exact h

/-- A letter lies in one of the ranges of letters, also if it is a Latin one. -/
theorem exists_range_of_isLetter {c : Char} (h : isLetter c = true) :
    ∃ r ∈ letterRanges, r.1 ≤ c.toNat ∧ c.toNat ≤ r.2 := by
  unfold isLetter at h
  split at h
  · rcases toNat_of_isAlpha h with hc | hc
    · exact ⟨(0x41, 0x5a), List.mem_cons_self, hc⟩
    · exact ⟨(0x61, 0x7a), List.mem_cons_of_mem _ List.mem_cons_self, hc⟩
  · exact CodeRanges.exists_of_has h

/-- A code point in a range that is apart from those of the blank characters is not blank. -/
theorem isBlank_eq_false_of_range {c : Char} {rs : CodeRanges}
    (h : ∃ r ∈ rs, r.1 ≤ c.toNat ∧ c.toNat ≤ r.2)
    (hapart : (rs.all fun r => blankRanges.all fun b => b.2 < r.1 || r.2 < b.1) = true) :
    isBlank c = false := by
  apply eq_false_of_ne_true
  intro hblank
  obtain ⟨r, hr, hlow, hhigh⟩ := h
  obtain ⟨b, hb, hlow', hhigh'⟩ := CodeRanges.exists_of_has hblank
  have hbetween := List.all_eq_true.mp (List.all_eq_true.mp hapart r hr) b hb
  simp only [Bool.or_eq_true, decide_eq_true_eq] at hbetween
  omega

theorem isBlank_eq_false_of_isDigit {c : Char} (h : isDigit c = true) : isBlank c = false :=
  isBlank_eq_false_of_range ⟨(48, 57), List.mem_singleton_self _, toNat_of_isDigit h⟩ (by decide)

theorem isBlank_eq_false_of_isLetter {c : Char} (h : isLetter c = true) : isBlank c = false :=
  isBlank_eq_false_of_range (exists_range_of_isLetter h) (by decide +kernel)

theorem isBlank_eq_false_of_isNumeral {c : Char} (h : isNumeral c = true) : isBlank c = false := by
  unfold isNumeral at h
  split at h
  · exact isBlank_eq_false_of_isDigit h
  · exact isBlank_eq_false_of_range (CodeRanges.exists_of_has h) (by decide +kernel)

/-- A number begins with a digit. -/
theorem Numeral.exists_cons {word ds : List Char} {places : Nat} (h : Numeral word ds places) :
    ∃ d w, word = d :: w ∧ isDigit d = true := by
  cases h with
  | whole hne hds =>
    obtain ⟨d, w, rfl⟩ := List.exists_cons_of_ne_nil hne
    exact ⟨d, w, rfl, hds d List.mem_cons_self⟩
  | @decimal ds es hds hne =>
    obtain ⟨d, w, rfl⟩ := List.exists_cons_of_ne_nil hne
    exact ⟨d, w ++ '.' :: es, rfl, hds d List.mem_cons_self⟩

namespace Piece

/-- What may begin a name may stand in one. -/
theorem continuesName_of_beginsName {c : Char} (h : beginsName c = true) :
    continuesName c = true := by
  rw [beginsName, Bool.or_eq_true] at h
  rw [continuesName, Bool.or_eq_true, Bool.or_eq_true]
  exact h.imp_left .inl

/-- No blank character stands in a name. -/
theorem isBlank_eq_false_of_continuesName {c : Char} (h : continuesName c = true) :
    isBlank c = false := by
  rw [continuesName, Bool.or_eq_true, Bool.or_eq_true] at h
  rcases h with (h | h) | h
  · exact isBlank_eq_false_of_isLetter h
  · exact isBlank_eq_false_of_isNumeral h
  · rw [eq_of_beq h]
    decide

end Piece

/-- All characters of a name may stand in one behind its beginning. -/
theorem IsName.all {cs : List Char} (h : IsName cs) :
    ∀ c ∈ cs, Piece.continuesName c = true := by
  obtain ⟨d, w, rfl, hd, hw⟩ := h
  exact List.forall_mem_cons.mpr ⟨Piece.continuesName_of_beginsName hd, hw⟩

/-- All characters of a number are digits or a point. -/
theorem Numeral.all {cs ds : List Char} {places : Nat} (h : Numeral cs ds places) :
    ∀ c ∈ cs, (isDigit c || c == '.') = true := by
  intro c hc
  cases h with
  | whole _ hds => simp [hds c hc]
  | decimal hds _ hes _ =>
    rcases List.mem_append.mp hc with hc | hc
    · simp [hds c hc]
    · rcases List.mem_cons.mp hc with rfl | hc
      · rfl
      · simp [hes c hc]

namespace Piece

theorem isDigit_eq_false_of_beginsName {c : Char} (h : beginsName c = true) :
    isDigit c = false := by
  apply eq_false_of_ne_true
  intro hdigit
  have hrange := toNat_of_isDigit hdigit
  rw [beginsName, Bool.or_eq_true, isLetter, if_pos (by omega)] at h
  rcases h with h | h
  · have := toNat_of_isAlpha h
    omega
  · rw [eq_of_beq h] at hdigit
    cases hdigit

/-- A character begins an operator if an operator begins with it. -/
theorem exists_operator {c : Char} (h : beginsOperator c = true) :
    ∃ e ∈ operators, e.1.head? = some c := by
  rw [beginsOperator, Bool.or_eq_true, Bool.or_eq_true] at h
  rcases h with (h | h) | h
  · obtain ⟨kind, hkind⟩ := Option.isSome_iff_exists.mp h
    exact ⟨_, (mark?_eq_some hkind).1, rfl⟩
  · obtain ⟨⟨kind, alone⟩, hkind⟩ := Option.isSome_iff_exists.mp h
    exact ⟨_, (comparison?_eq_some hkind).1, rfl⟩
  · rw [eq_of_beq h]
    exact ⟨(['/'], .slash), by decide, rfl⟩

theorem beginsOperator_eq_false_of_head? {c : Char} (h : ∀ e ∈ operators, e.1.head? ≠ some c) :
    beginsOperator c = false := by
  apply eq_false_of_ne_true
  intro hstart
  obtain ⟨e, he, hc⟩ := exists_operator hstart
  exact h e he hc

/-- What begins an operator begins nothing else. -/
theorem of_beginsOperator {c : Char} (h : beginsOperator c = true) :
    isBlank c = false ∧ isDigit c = false ∧ beginsName c = false := by
  have hall : (operators.all fun e => e.1.head?.all fun c =>
      !isBlank c && !isDigit c && !beginsName c) = true := by decide
  obtain ⟨e, he, hc⟩ := exists_operator h
  have hstart := List.all_eq_true.mp hall e he
  rw [hc] at hstart
  simpa [and_assoc] using hstart

theorem beginsOperator_eq_false {c : Char}
    (h : isBlank c = true ∨ isDigit c = true ∨ beginsName c = true) : beginsOperator c = false := by
  apply eq_false_of_ne_true
  intro hoperator
  obtain ⟨hblank, hdigit, hname⟩ := of_beginsOperator hoperator
  simp [hblank, hdigit, hname] at h

/-! ### The first piece, by its first character -/

theorem first_of_mark {c : Char} {kind : TokenKind} (h : mark? c = some kind) (cs : List Char) :
    first c cs = .token kind [c] .nil := by
  unfold first
  rw [h]

theorem first_of_comparison {c : Char} {kind alone : TokenKind}
    (h : comparison? c = some (kind, alone)) (cs : List Char) :
    first c cs = afterComparison c kind alone cs := by
  have hmark : mark? c = none := by
    unfold comparison? at h
    split at h <;> cases h <;> rfl
  unfold first
  rw [hmark, h]

theorem first_of_beginsOperator {c : Char} (h : beginsOperator c = false) (cs : List Char) :
    first c cs = if isBlank c then .blank c
      else if c == '"' then afterQuote cs
      else if isDigit c then afterDigit c cs
      else if beginsName c then afterNameStart c cs
      else .stray c := by
  rw [beginsOperator, Bool.or_eq_false_iff, Bool.or_eq_false_iff] at h
  obtain ⟨⟨hmark, hcomparison⟩, hslash⟩ := h
  rw [Option.isSome_eq_false_iff, Option.isNone_iff_eq_none] at hmark hcomparison
  unfold first
  rw [hmark, hcomparison]
  simp [hslash]

theorem first_of_blank {c : Char} (h : isBlank c = true) (cs : List Char) :
    first c cs = .blank c := by
  rw [first_of_beginsOperator (beginsOperator_eq_false (.inl h)), if_pos h]

theorem first_quote (cs : List Char) : first '"' cs = afterQuote cs := by
  have hblank : ¬isBlank '"' = true := by decide
  rw [first_of_beginsOperator (by decide), if_neg hblank]
  rfl

theorem first_of_digit {c : Char} (h : isDigit c = true) (cs : List Char) :
    first c cs = afterDigit c cs := by
  have hoperator := beginsOperator_eq_false (.inr (.inl h))
  have hquote : ¬(c == '"') = true := by
    intro hquote
    rw [eq_of_beq hquote] at h
    cases h
  rw [first_of_beginsOperator hoperator, if_neg (by simp [isBlank_eq_false_of_isDigit h]),
    if_neg hquote, if_pos h]

theorem first_of_beginsName {c : Char} (h : beginsName c = true) (cs : List Char) :
    first c cs = afterNameStart c cs := by
  have hoperator := beginsOperator_eq_false (.inr (.inr h))
  have hquote : ¬(c == '"') = true := by
    intro hquote
    rw [eq_of_beq hquote] at h
    revert h
    decide
  have hblank := isBlank_eq_false_of_continuesName (continuesName_of_beginsName h)
  have hdigit := isDigit_eq_false_of_beginsName h
  rw [first_of_beginsOperator hoperator, if_neg (by simp [hblank]), if_neg hquote,
    if_neg (by simp [hdigit]), if_pos h]

/-! ### Pieces of a class -/

/-- Words of a class of characters that are the longest ones are all of these characters at
the beginning. -/
theorem takeWhile_eq_nil_of_longest {IsWord : List Char → Prop} {p : Char → Bool}
    {cs rest : List Char} (hlongest : Longest IsWord cs (cs ++ rest))
    (hword : IsWord (cs ++ rest.takeWhile p)) : rest.takeWhile p = [] := by
  have hle := hlongest _ hword ((List.prefix_append_right_inj cs).mpr (List.takeWhile_prefix p))
  rw [List.length_append] at hle
  exact List.length_eq_zero_iff.mp (by omega)

theorem ne_nil_of_mem_operators {word : List Char} {kind : TokenKind}
    (h : (word, kind) ∈ operators) : word ≠ [] := by
  have hall : ∀ e ∈ operators, e.1 ≠ [] := by decide
  exact hall _ h

/-- The table of operators gives each of them one kind. -/
theorem kind_unique {cs : List Char} {kind kind' : TokenKind} (h : (cs, kind) ∈ operators)
    (h' : (cs, kind') ∈ operators) : kind = kind' := by
  have hall : ∀ e ∈ operators, ∀ e' ∈ operators, e.1 = e'.1 → e.2 = e'.2 := by decide
  exact hall _ h _ h' rfl

theorem eq_first_operator {kind : TokenKind} {word cs rest : List Char} {c : Char}
    (h : (word, kind) ∈ operators)
    (hlongest : Longest (fun w => ∃ k, (w, k) ∈ operators) word (word ++ rest))
    (hslash : kind = .slash → ∀ d ∈ rest.head?, d ≠ '/' ∧ d ≠ '*')
    (heq : word ++ rest = c :: cs) : .token kind word .nil = first c cs := by
  obtain ⟨d, w, rfl⟩ := List.exists_cons_of_ne_nil (ne_nil_of_mem_operators h)
  obtain rfl : d = c := (List.cons.inj heq).1
  have hcs : w ++ rest = cs := (List.cons.inj heq).2
  have hstart := start_of_mem_operators h rfl
  rw [beginsOperator, Bool.or_eq_true, Bool.or_eq_true] at hstart
  rcases hstart with (hmark | hcomparison) | hc
  · obtain ⟨kind', hmark⟩ := Option.isSome_iff_exists.mp hmark
    obtain ⟨hmem, -, hlength⟩ := mark?_eq_some hmark
    obtain rfl : w = [] := List.length_eq_zero_iff.mp (by simpa using hlength _ h rfl)
    rw [first_of_mark hmark, kind_unique h hmem]
  · obtain ⟨⟨kind', alone⟩, hcomparison⟩ := Option.isSome_iff_exists.mp hcomparison
    obtain ⟨hmem, halone, -, -, hwords⟩ := comparison?_eq_some hcomparison
    rw [first_of_comparison hcomparison, ← hcs]
    rcases hwords _ h rfl with hw | hw
    · obtain rfl : w = [] := (List.cons.inj hw).2
      rw [kind_unique h halone, List.nil_append]
      fun_cases afterComparison d kind' alone rest with
      | case1 ds =>
        -- the longer operator would be the one to take
        have hle := hlongest [d, '='] ⟨_, hmem⟩ ⟨ds, rfl⟩
        exact absurd hle (by simp)
      | case2 => rfl
    · obtain rfl : w = ['='] := (List.cons.inj hw).2
      rw [kind_unique h hmem]
      rfl
  · obtain rfl := eq_of_beq hc
    have hall : ∀ e ∈ operators, e.1.head? = some '/' → e = (['/'], .slash) := by decide
    obtain ⟨hw, rfl⟩ := Prod.mk.inj (hall _ h rfl)
    obtain rfl : w = [] := (List.cons.inj hw).2
    rw [← hcs, List.nil_append]
    show _ = afterSlash rest
    fun_cases afterSlash rest with
    | case1 ds => exact absurd rfl (hslash rfl '/' rfl).1
    | case2 ds | case3 ds => exact absurd rfl (hslash rfl '*' rfl).2
    | case4 => rfl

theorem eq_afterDigit {word ds rest cs : List Char} {places : Nat} {c : Char}
    (h : Numeral word ds places)
    (hlongest : Longest (fun w => ∃ es n, Numeral w es n) word (word ++ rest))
    (heq : word ++ rest = c :: cs) :
    .token .number word (.number (numberOfDigits ds places)) = afterDigit c cs := by
  have hc : isDigit c = true := by
    obtain ⟨d, w, rfl, hd⟩ := h.exists_cons
    rwa [← (List.cons.inj heq).1]
  have htake : (c :: cs).takeWhile isDigit = c :: cs.takeWhile isDigit := by simp [hc]
  have hdrop : (c :: cs).dropWhile isDigit = cs.dropWhile isDigit := by simp [hc]
  cases h with
  | whole hne hds =>
    -- no digits follow the number, and no fraction either
    have hnil : rest.takeWhile isDigit = [] := by
      refine takeWhile_eq_nil_of_longest hlongest ⟨_, _, .whole (by simp [hne]) ?_⟩
      intro d hd
      rcases List.mem_append.mp hd with hd | hd
      · exact hds d hd
      · exact List.mem_takeWhile_imp hd
    have hrest : rest.dropWhile isDigit = rest := by
      have := List.takeWhile_append_dropWhile (p := isDigit) (l := rest)
      rwa [hnil] at this
    rw [← heq, List.takeWhile_append_of_pos hds, hnil, List.append_nil] at htake
    rw [← heq, List.dropWhile_append_of_pos hds, hrest] at hdrop
    have hfraction : fraction rest = [] := by
      by_contra hne'
      have hprefix : word ++ '.' :: fraction rest <+: word ++ rest := by
        refine (List.prefix_append_right_inj word).mpr ?_
        unfold fraction at hne' ⊢
        split
        · exact (List.prefix_cons_inj '.').mpr (List.takeWhile_prefix _)
        · simp at hne'
      have hle := hlongest _ ⟨_, _, .decimal hds hne
        (fun e he => isDigit_of_mem_fraction he) hne'⟩ hprefix
      rw [List.length_append, List.length_cons] at hle
      omega
    unfold afterDigit
    dsimp only
    rw [← htake, ← hdrop, hfraction]
  | @decimal ds es hds hne hes hne' =>
    obtain ⟨htake', hdrop'⟩ := digits_of_decimal hds heq
    have hnil : rest.takeWhile isDigit = [] := by
      have hlonger : ∀ e ∈ es ++ rest.takeWhile isDigit, isDigit e = true := by
        intro e he
        rcases List.mem_append.mp he with he | he
        · exact hes e he
        · exact List.mem_takeWhile_imp he
      have hword := Numeral.decimal hds hne hlonger (by simp [hne'])
      rw [← List.cons_append, ← List.append_assoc] at hword
      exact takeWhile_eq_nil_of_longest hlongest ⟨_, _, hword⟩
    have hfraction : fraction (cs.dropWhile isDigit) = es := by
      rw [← hdrop, hdrop', fraction, List.takeWhile_append_of_pos hes, hnil, List.append_nil]
    unfold afterDigit
    dsimp only
    rw [← htake, htake', hfraction]
    cases es with
    | nil => exact absurd rfl hne'
    | cons e es => rfl

theorem eq_afterNameStart {kind : TokenKind} {word rest cs : List Char} {c : Char}
    (h : IsName word) (hlongest : Longest IsName word (word ++ rest))
    (hkind : kind.IsOf (String.ofList word)) (heq : word ++ rest = c :: cs) :
    .token kind word .nil = afterNameStart c cs := by
  obtain ⟨d, w, rfl, hd, hw⟩ := h
  obtain ⟨rfl, hcs⟩ : d = c ∧ w ++ rest = cs := List.cons.inj heq
  have hnil : rest.takeWhile continuesName = [] := by
    refine takeWhile_eq_nil_of_longest hlongest ⟨d, w ++ rest.takeWhile continuesName, rfl, hd, ?_⟩
    intro e he
    rcases List.mem_append.mp he with he | he
    · exact hw e he
    · exact List.mem_takeWhile_imp he
  have hword : (keyword? (String.ofList (d :: w))).getD .identifier = kind := by
    rcases hkind with hmem | ⟨rfl, hnone⟩
    · have hall : ∀ e ∈ keywords, keyword? e.1 = some e.2 := by decide
      rw [hall _ hmem, Option.getD_some]
    · cases hsome : keyword? (String.ofList (d :: w)) with
      | none => rfl
      | some k => exact absurd (mem_keywords hsome) (hnone k)
  unfold afterNameStart
  dsimp only
  rw [← hcs, List.takeWhile_append_of_pos hw, hnil, List.append_nil, hword]

theorem throughCommentEnd_of_closes {body : List Char} (h : ¬['*', '/'] <:+: body ++ ['*'])
    (rest : List Char) :
    throughCommentEnd (body ++ '*' :: '/' :: rest) = some (body ++ ['*', '/']) := by
  induction body with
  | nil => rfl
  | cons c body ih =>
    have hlater : ¬['*', '/'] <:+: body ++ ['*'] := by
      intro hinfix
      exact h (List.infix_cons hinfix)
    have hnot : ∀ ds, c = '*' → body ++ '*' :: '/' :: rest = '/' :: ds → False := by
      rintro ds rfl hds
      cases body with
      | nil => cases hds
      | cons d body =>
        obtain ⟨rfl, -⟩ := List.cons.inj hds
        exact h ⟨[], body ++ ['*'], rfl⟩
    rw [List.cons_append, throughCommentEnd, ih hlater]
    · rfl
    · exact hnot

theorem throughCommentEnd_of_not_closes {body : List Char} (h : ¬['*', '/'] <:+: body) :
    throughCommentEnd body = none := by
  cases hthrough : throughCommentEnd body with
  | none => rfl
  | some b =>
    obtain ⟨b, rfl, -⟩ := closes_of_throughCommentEnd hthrough
    exact absurd ((List.suffix_append b _).isInfix.trans
      (throughCommentEnd_isPrefixOf hthrough).isInfix) h

theorem afterQuote_of_closed {body : List Char} (h : '"' ∉ body) (rest : List Char) :
    afterQuote (body ++ '"' :: rest)
      = .token .string ('"' :: body ++ ['"']) (.text (String.ofList body)) := by
  have hbody : (body ++ '"' :: rest).takeWhile (· != '"') = body := by
    rw [List.takeWhile_append_of_pos fun c hc => bne_iff_ne.mpr (ne_of_mem_of_not_mem hc h)]
    simp
  unfold afterQuote
  dsimp only
  rw [hbody, if_neg (by simp)]

theorem afterQuote_of_open {body : List Char} (h : '"' ∉ body) :
    afterQuote body = .openString ('"' :: body) := by
  have hbody : body.takeWhile (· != '"') = body := by
    rw [List.takeWhile_eq_self_iff]
    intro c hc
    exact bne_iff_ne.mpr (ne_of_mem_of_not_mem hc h)
  unfold afterQuote
  dsimp only
  rw [if_pos (by rw [hbody])]

theorem afterSlash_of_line {body rest : List Char} (h : '\n' ∉ body)
    (hrest : ∀ c ∈ rest.head?, c = '\n') :
    afterSlash ('/' :: (body ++ rest)) = .comment ('/' :: '/' :: body) := by
  have hall : ∀ c ∈ body, (c != '\n') = true := by
    intro c hc
    exact bne_iff_ne.mpr (ne_of_mem_of_not_mem hc h)
  have hstop : rest.takeWhile (· != '\n') = [] := by
    cases rest with
    | nil => rfl
    | cons c rest => simp [hrest c rfl]
  rw [afterSlash, List.takeWhile_append_of_pos hall, hstop, List.append_nil]

theorem afterSlash_of_block {body : List Char} (h : ¬['*', '/'] <:+: body ++ ['*'])
    (rest : List Char) :
    afterSlash ('*' :: (body ++ '*' :: '/' :: rest))
      = .comment ('/' :: '*' :: body ++ ['*', '/']) := by
  rw [afterSlash, throughCommentEnd_of_closes h]
  rfl

theorem afterSlash_of_open {body : List Char} (h : ¬['*', '/'] <:+: body) :
    afterSlash ('*' :: body) = .openComment ('/' :: '*' :: body) := by
  rw [afterSlash, throughCommentEnd_of_not_closes h]

/-- No piece is empty. -/
theorem Fits.text_ne_nil {p : Piece} {rest : List Char} (h : p.Fits rest) : p.text ≠ [] := by
  cases h with
  | operator h => exact ne_nil_of_mem_operators h
  | number h =>
    obtain ⟨d, w, rfl, -⟩ := h.exists_cons
    exact List.cons_ne_nil d w
  | name h =>
    obtain ⟨c, w, rfl, -⟩ := h
    exact List.cons_ne_nil c w
  | string | blank | lineComment | blockComment | stray | openString | openComment =>
    exact List.cons_ne_nil _ _

/-- A piece of a class is the first piece of its text. -/
theorem Fits.eq_first {p : Piece} {rest : List Char} (h : p.Fits rest) {c : Char}
    {cs : List Char} (heq : p.text ++ rest = c :: cs) : p = first c cs := by
  cases h with
  | operator h hlongest hslash => exact eq_first_operator h hlongest hslash heq
  | @number word ds rest places h hlongest =>
    obtain ⟨d, w, rfl, hd⟩ := h.exists_cons
    have hc : isDigit c = true := by rwa [← (List.cons.inj heq).1]
    rw [first_of_digit hc]
    exact eq_afterDigit h hlongest heq
  | name h hlongest hkind =>
    have hc : beginsName c = true := by
      obtain ⟨d, w, rfl, hd, -⟩ := h
      rwa [← (List.cons.inj heq).1]
    rw [first_of_beginsName hc]
    exact eq_afterNameStart h hlongest hkind heq
  | @string body _ h =>
    obtain ⟨rfl, rfl⟩ := List.cons.inj heq
    rw [first_quote]
    show _ = afterQuote (body ++ ['"'] ++ rest)
    rw [List.append_assoc]
    exact (afterQuote_of_closed h rest).symm
  | blank h =>
    obtain ⟨rfl, -⟩ := List.cons.inj heq
    rw [first_of_blank h]
  | lineComment h hrest =>
    obtain ⟨rfl, rfl⟩ := List.cons.inj heq
    exact (afterSlash_of_line h hrest).symm
  | @blockComment body _ h =>
    obtain ⟨rfl, rfl⟩ := List.cons.inj heq
    show _ = afterSlash ('*' :: (body ++ ['*', '/'] ++ rest))
    rw [List.append_assoc]
    exact (afterSlash_of_block h rest).symm
  | @stray d _ hoperator hblank hquote hdigit hname =>
    obtain ⟨rfl, -⟩ := List.cons.inj heq
    rw [first_of_beginsOperator (beginsOperator_eq_false_of_head? hoperator)]
    simp [hblank, hquote, hdigit, hname]
  | @openString body h =>
    obtain ⟨rfl, rfl⟩ := List.cons.inj heq
    show _ = first '"' (body ++ [])
    rw [first_quote, List.append_nil, afterQuote_of_open h]
  | @openComment body h =>
    obtain ⟨rfl, rfl⟩ := List.cons.inj heq
    show _ = afterSlash ('*' :: (body ++ []))
    rw [List.append_nil, afterSlash_of_open h]

end Piece

/-! ### All pieces -/

/-- Whatever tiles a text are its pieces. -/
theorem Tiling.eq_tile {cs : List Char} {ps : List Piece} (h : Tiling cs ps) :
    ps = LoxLang.tile cs := by
  induction h with
  | nil => rfl
  | @cons p rest ps hp _ ih =>
    cases hcs : p.text ++ rest with
    | nil => exact absurd (List.append_eq_nil_iff.mp hcs).1 hp.text_ne_nil
    | cons c cs =>
      obtain ⟨rest', htext, -, htile⟩ := tile_cons c cs
      have hfirst := hp.eq_first hcs
      have hrest : rest' = rest := by
        rw [← hfirst, ← hcs] at htext
        exact List.append_cancel_left htext
      rw [htile, ← hfirst, hrest, ih]

/-- **A text is tiled by its pieces and in no other way.** -/
theorem tiling_iff {cs : List Char} {ps : List Piece} : Tiling cs ps ↔ ps = tile cs := by
  constructor
  · exact Tiling.eq_tile
  · rintro rfl
    exact Tiling.tile cs

/-- What is tiled by pieces is what they are put together. -/
theorem Tiling.flatMap_text {cs : List Char} {ps : List Piece} (h : Tiling cs ps) :
    ps.flatMap Piece.text = cs := by
  rw [h.eq_tile, flatMap_text_tile]

/-- The last pieces of a text tile what the others leave of it. -/
theorem Tiling.of_append {cs : List Char} {ps qs : List Piece} (h : Tiling cs (ps ++ qs)) :
    ∃ rest, cs = ps.flatMap Piece.text ++ rest ∧ Tiling rest qs := by
  induction ps generalizing cs with
  | nil => exact ⟨cs, rfl, h⟩
  | cons p ps ih =>
    cases h with
    | @cons _ rest _ hp h =>
      obtain ⟨rest', rfl, hqs⟩ := ih h
      exact ⟨rest', by rw [List.flatMap_cons, List.append_assoc], hqs⟩

/-- A piece of a text is of a class, before what follows it, and that is tiled by the pieces
behind. -/
theorem Tiling.of_split {cs : List Char} {before behind : List Piece} {p : Piece}
    (h : Tiling cs (before ++ p :: behind)) :
    p.Fits (behind.flatMap Piece.text) ∧ Tiling (behind.flatMap Piece.text) behind := by
  obtain ⟨rest, -, hrest⟩ := h.of_append
  cases hrest with
  | cons hp hbehind =>
    rw [hbehind.flatMap_text]
    exact ⟨hp, hbehind⟩

end LoxLang
