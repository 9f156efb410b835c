import LoxLang.Diagnostic.Log
import LoxLang.Proofs.Token.LineNumbers

/-!
# The lines that a log knows of a file

Two numberings of lines meet where a diagnostic is shown.  Tokens are numbered by the line feeds
before them.  The lines that the log knows are those of the displayed text, where other characters
end a line as well: a form feed, say, or a carriage return that no line feed follows.  Each of
these stray breaks puts the known lines behind it one number further on.

So the line of a token is known under the number of the token and as many more as there are stray
breaks before it.  The two numberings agree up to the first stray break, and a token that has one
within it stands on no known line at all.

## Main definitions

* `strayBreaks` — how many line ends of a displayed text are not counted for tokens.

## Main results

* `getElem?_linesFrom` — a word is on the line after as many as end before it.
* `Log.find?_registerFile` — the known lines by their numbers.
* `Log.lines_of_tokens` — **where the line of a token is known.**
* `Log.form_feed_misplaces` — a form feed makes the two numberings differ.
-/

namespace LoxLang

/-! ### Lines of a displayed text -/

/-- How many line ends of a displayed text are no line feeds; a carriage return and the line feed
behind it are one line end. -/
def strayBreaks : List Char → Nat
  | [] => 0
  | '\r' :: '\n' :: cs => strayBreaks cs
  | c :: cs => (if isLineEnd c && c != '\n' then 1 else 0) + strayBreaks cs

theorem strayBreaks_eq_zero {cs : List Char} (h : ∀ c ∈ cs, isLineEnd c = true → c = '\n') :
    strayBreaks cs = 0 := by
  fun_induction strayBreaks cs with
  | case1 => rfl
  | case2 cs ih => exact absurd (h '\r' List.mem_cons_self rfl) (by decide)
  | case3 c cs _ ih =>
    obtain ⟨hc, hcs⟩ := List.forall_mem_cons.mp h
    rw [ih hcs, Nat.add_zero, if_neg]
    intro hstray
    rw [Bool.and_eq_true, bne_iff_ne] at hstray
    exact hstray.2 (hc hstray.1)

/-- A character that is not a carriage return before a line feed is looked at alone. -/
theorem linesFrom_cons {c : Char} {cs : List Char} (h : ∀ ds, c = '\r' → cs ≠ '\n' :: ds)
    (line : List Char) :
    linesFrom line (c :: cs)
      = if isLineEnd c then line.reverse :: linesFrom [] cs else linesFrom (c :: line) cs := by
  -- the equations of the function take long to derive, and only its last case is needed
  rw [linesFrom.eq_def line]
  split
  · next heq => cases heq
  · next ds heq =>
    obtain ⟨hc, hcs⟩ := List.cons.inj heq
    exact absurd hcs (h ds hc)
  · next heq =>
    obtain ⟨rfl, rfl⟩ := List.cons.inj heq
    rfl

/-- A word without line ends adds to the line. -/
theorem linesFrom_append {word : List Char} (h : ∀ c ∈ word, isLineEnd c = false)
    (line behind : List Char) :
    linesFrom line (word ++ behind) = linesFrom (word.reverse ++ line) behind := by
  induction word generalizing line with
  | nil => rfl
  | cons c word ih =>
    obtain ⟨hc, hword⟩ := List.forall_mem_cons.mp h
    have hne : c ≠ '\r' := by
      rintro rfl
      cases hc
    rw [List.cons_append, linesFrom_cons fun _ heq => absurd heq hne]
    simp [hc, ih hword]

/-- What has been read of a line is part of the next one that ends. -/
theorem exists_linesFrom_eq_cons {line : List Char} (hne : line ≠ []) (cs : List Char) :
    ∃ l rest, linesFrom line cs = l :: rest ∧ line.reverse <+: l := by
  fun_induction linesFrom line cs with
  | case1 line hnil => exact absurd (List.isEmpty_iff.mp hnil) hne
  | case2 line _ => exact ⟨line.reverse, [], rfl, List.prefix_refl _⟩
  | case3 line cs _ => exact ⟨line.reverse, _, rfl, List.prefix_refl _⟩
  | case4 line c cs _ _ _ => exact ⟨line.reverse, _, rfl, List.prefix_refl _⟩
  | case5 line c cs _ _ ih =>
    obtain ⟨l, rest, heq, hl⟩ := ih (List.cons_ne_nil c line)
    refine ⟨l, rest, heq, List.IsPrefix.trans ?_ hl⟩
    simp

/-- A word without line ends is on the line after as many as end before it. -/
theorem getElem?_linesFrom {word : List Char} (hne : word ≠ [])
    (hword : ∀ c ∈ word, isLineEnd c = false) (before behind line : List Char) :
    ∃ l, (linesFrom line (before ++ word ++ behind))[before.count '\n' + strayBreaks before]?
        = some l ∧ word <:+: l := by
  -- the word does not begin with the line feed that a carriage return would wait for
  have hhead : ∀ ds, word ++ behind ≠ '\n' :: ds := by
    intro ds heq
    obtain ⟨c, w, rfl⟩ := List.exists_cons_of_ne_nil hne
    have hc := hword c List.mem_cons_self
    rw [(List.cons.inj heq).1] at hc
    cases hc
  fun_induction strayBreaks before generalizing line with
  | case1 =>
    rw [List.nil_append, linesFrom_append hword]
    have hline : word.reverse ++ line ≠ [] := by simp [hne]
    obtain ⟨l, rest, heq, hl⟩ := exists_linesFrom_eq_cons hline behind
    refine ⟨l, by rw [heq]; rfl, List.IsInfix.trans ?_ hl.isInfix⟩
    simp only [List.reverse_append, List.reverse_reverse]
    exact (List.suffix_append _ _).isInfix
  | case2 cs ih =>
    obtain ⟨l, hl, hwithin⟩ := ih []
    refine ⟨l, ?_, hwithin⟩
    have hcount : ('\r' :: '\n' :: cs).count '\n' = cs.count '\n' + 1 := by simp
    rw [hcount, Nat.add_right_comm]
    exact hl
  | case3 c cs hother ih =>
    have halone : ∀ ds, c = '\r' → cs ++ word ++ behind ≠ '\n' :: ds := by
      intro ds hc heq
      cases cs with
      | nil => exact hhead ds heq
      | cons d cs =>
        obtain ⟨rfl, -⟩ := List.cons.inj heq
        exact hother cs hc rfl
    rw [List.cons_append, List.cons_append, linesFrom_cons halone]
    by_cases hend : isLineEnd c = true
    · obtain ⟨l, hl, hwithin⟩ := ih []
      refine ⟨l, ?_, hwithin⟩
      have hnumber : (c :: cs).count '\n' + ((if isLineEnd c && c != '\n' then 1 else 0)
          + strayBreaks cs) = cs.count '\n' + strayBreaks cs + 1 := by
        by_cases hc : c = '\n'
        · simp [hc]
          omega
        · simp [hc, hend]
          omega
      rw [if_pos hend, hnumber, List.getElem?_cons_succ]
      exact hl
    · obtain ⟨l, hl, hwithin⟩ := ih (c :: line)
      refine ⟨l, ?_, hwithin⟩
      have hc : c ≠ '\n' := by
        rintro rfl
        exact hend rfl
      simpa [hend, hc] using hl

/-- No line end stands within a line. -/
theorem isLineEnd_of_mem_linesFrom {line cs l : List Char} (h : ∀ c ∈ line, isLineEnd c = false)
    (hl : l ∈ linesFrom line cs) : ∀ c ∈ l, isLineEnd c = false := by
  have hreverse : ∀ {line : List Char}, (∀ c ∈ line, isLineEnd c = false) →
      ∀ c ∈ line.reverse, isLineEnd c = false :=
    fun h c hc => h c (List.mem_reverse.mp hc)
  fun_induction linesFrom line cs with
  | case1 => cases hl
  | case2 line =>
    rw [List.mem_singleton.mp hl]
    exact hreverse h
  | case3 line cs ih | case4 line c cs _ _ ih =>
    rcases List.mem_cons.mp hl with rfl | hl
    · exact hreverse h
    · exact ih (by simp) hl
  | case5 line c cs _ hc ih =>
    apply ih _ hl
    simpa [hc] using h

/-! ### Known lines -/

/-- Lines with their numbers. -/
def numbered (k : Nat) (texts : List String) : List (Int × String) :=
  (texts.zipIdx k).map fun (text, i) => ((i : Int), text)

theorem search_numbered (k : Nat) (texts : List String) (j : Nat) :
    Table.search ((k : Int) + j) (numbered k texts) = texts[j]? := by
  induction texts generalizing k j with
  | nil => rfl
  | cons text texts ih =>
    have hcons : numbered k (text :: texts) = ((k : Int), text) :: numbered (k + 1) texts := by
      simp [numbered, List.zipIdx_cons]
    rw [hcons, Table.search]
    cases j with
    | zero => simp
    | succ j =>
      have hnext := ih (k + 1) j
      rw [if_neg (by omega), List.getElem?_cons_succ, ← hnext]
      congr 1
      omega

theorem nodup_numbered (k : Nat) (texts : List String) :
    ((numbered k texts).map Prod.fst).Nodup := by
  have hkeys : (numbered k texts).map Prod.fst
      = (List.range' k texts.length).map fun i : Nat => (i : Int) := by
    rw [← List.zipIdx_map_snd, numbered, List.map_map, List.map_map]
    rfl
  rw [hkeys, List.Nodup, List.pairwise_map]
  refine List.Pairwise.imp ?_ (List.nodup_range' (s := k) (n := texts.length))
  omega

namespace Log

variable (log : Log) (path : String)

theorem lines_registerFile (source : String) :
    (log.registerFile path source).lines
      = .ofList (numbered 1 ((splitLines source.toList).map String.ofList)) := rfl

/-- The known lines are those of the displayed text, in order. -/
theorem find?_registerFile (source : String) (j : Nat) :
    (log.registerFile path source).lines.find? (1 + (j : Int))
      = (splitLines source.toList)[j]?.map String.ofList := by
  rw [lines_registerFile, Table.find?_ofList (nodup_numbered _ _)]
  have hsearch := search_numbered 1 ((splitLines source.toList).map String.ofList) j
  rw [List.getElem?_map] at hsearch
  exact hsearch

theorem mem_splitLines_of_find? {source line : String} {n : Int}
    (h : (log.registerFile path source).lines.find? n = some line) :
    line.toList ∈ splitLines source.toList := by
  rw [lines_registerFile, Table.find?_ofList (nodup_numbered _ _)] at h
  obtain ⟨⟨text, i⟩, hmem, heq⟩ := List.mem_map.mp (Table.mem_of_search h)
  obtain ⟨l, hl, rfl⟩ := List.mem_map.mp (List.fst_mem_of_mem_zipIdx hmem)
  obtain ⟨-, rfl⟩ := Prod.mk.inj heq
  simpa using hl

/-- The line of a word is known under the number of all line ends before the word. -/
theorem exists_find?_of_word {text : String} {before word behind : List Char}
    (htext : text.toList = before ++ word ++ behind) (hne : word ≠ [])
    (hword : ∀ c ∈ word, isLineEnd c = false) :
    ∃ line, (log.registerFile path text).lines.find? (1 + before.count '\n' + strayBreaks before)
        = some line ∧ word <:+: line.toList := by
  obtain ⟨l, hl, hwithin⟩ := getElem?_linesFrom hne hword before behind []
  refine ⟨String.ofList l, ?_, by rwa [String.toList_ofList]⟩
  have hfind := log.find?_registerFile path text (before.count '\n' + strayBreaks before)
  rw [htext, splitLines, hl] at hfind
  rw [Int.add_assoc, ← Int.natCast_add]
  exact hfind

/-- **Where the line of a token is known.**  A token without a line feed in it stands in the
text, and its number is one more than the line feeds before it.  If no line ends within the
token, then its text stands on the line that is known under this number and as many more as
there are stray breaks before the token.  If a line ends within the token, then its text stands
on no known line.  So in a text that has no other line ends than line feeds, every such token is
found on the line that is known under its number. -/
theorem lines_of_tokens (text : String) (position : Nat) {t : Token}
    (ht : t ∈ (Lexed.ofText text 1 position).tokens) (hlexeme : '\n' ∉ t.lexeme.toList) :
    (∃ before behind, text.toList = before ++ t.lexeme.toList ++ behind
      ∧ t.position = position + before.length ∧ t.line = 1 + before.count '\n'
      ∧ ((∀ c ∈ t.lexeme.toList, isLineEnd c = false) → ∃ line,
        (log.registerFile path text).lines.find? (t.line + strayBreaks before) = some line
          ∧ t.lexeme.toList <:+: line.toList))
      ∧ ((∃ c ∈ t.lexeme.toList, isLineEnd c = true) → ∀ n line,
        (log.registerFile path text).lines.find? n = some line →
          ¬t.lexeme.toList <:+: line.toList)
      ∧ ((∀ c ∈ text.toList, isLineEnd c = true → c = '\n') → ∃ line,
        (log.registerFile path text).lines.find? t.line = some line
          ∧ t.lexeme.toList <:+: line.toList) := by
  obtain ⟨before, behind, htext, hposition, hline, w, d, hlast, -⟩ :=
    Lexed.exists_standing_of_mem_tokens 1 position ht
  have hne : t.lexeme.toList ≠ [] := by simp [hlast]
  have hnumber : t.line = 1 + before.count '\n' := by
    rw [hline, Lexed.lineEnds, List.count_append, List.count_eq_zero.mpr hlexeme, Nat.add_zero]
  have hknown := log.exists_find?_of_word path htext hne
  rw [← hnumber] at hknown
  refine ⟨⟨before, behind, htext, hposition, hnumber, hknown⟩, ?_, ?_⟩
  · rintro ⟨c, hc, hend⟩ n line hfind hwithin
    -- a known line has no line ends, so neither has what stands on it
    have hnone := isLineEnd_of_mem_linesFrom (by simp) (log.mem_splitLines_of_find? path hfind) c
      (hwithin.subset hc)
    rw [hend] at hnone
    cases hnone
  · intro hplain
    rw [htext] at hplain
    have hword : ∀ c ∈ t.lexeme.toList, isLineEnd c = false := by
      intro c hc
      apply eq_false_of_ne_true
      intro hend
      have hfeed := hplain c (by simp [hc]) hend
      exact hlexeme (hfeed ▸ hc)
    have hstray : strayBreaks before = 0 := by
      apply strayBreaks_eq_zero
      intro c hc hend
      exact hplain c (by simp [hc]) hend
    obtain ⟨line, hfind, hwithin⟩ := hknown hword
    rw [hstray, Int.natCast_zero, Int.add_zero] at hfind
    exact ⟨line, hfind, hwithin⟩

/-- A carriage return before a line feed does no harm, and a form feed does: the second name is
numbered 2, and it stands on the line that is known under 3. -/
theorem lines_of_tokens_behind_form_feed :
    (⟨.identifier, "b", .nil, 2, 4⟩ : Token) ∈ (Lexed.ofText "a\r\n\x0cb" 1 0).tokens
      ∧ '\n' ∉ "b".toList
      ∧ (({} : Log).registerFile "f" "a\r\n\x0cb").lines = ⟨[(1, "a"), (2, ""), (3, "b")]⟩
      ∧ ∃ before behind, "a\r\n\x0cb".toList = before ++ "b".toList ++ behind
        ∧ 4 = 0 + before.length ∧ (2 : Int) = 1 + before.count '\n'
        ∧ ∃ line, (({} : Log).registerFile "f" "a\r\n\x0cb").lines.find? (2 + strayBreaks before)
          = some line ∧ "b".toList <:+: line.toList := by
  have ht : (⟨.identifier, "b", .nil, 2, 4⟩ : Token)
      ∈ (Lexed.ofText "a\r\n\x0cb" 1 0).tokens := by decide +kernel
  have hlexeme : '\n' ∉ "b".toList := by decide
  obtain ⟨⟨before, behind, htext, hposition, hline, hknown⟩, -⟩ :=
    lines_of_tokens {} "f" "a\r\n\x0cb" 0 ht hlexeme
  exact ⟨ht, hlexeme, by decide +kernel, before, behind, htext, hposition, hline,
    hknown (List.forall_mem_singleton.mpr (by decide))⟩

/-- A form feed makes the two numberings differ: the name is numbered 1, and the line that is
known under this number is empty. -/
theorem form_feed_misplaces :
    (Lexed.ofText "\x0ca" 1 0).tokens = [⟨.identifier, "a", .nil, 1, 1⟩]
      ∧ (({} : Log).registerFile "f" "\x0ca").lines.find? 1 = some ""
      ∧ ¬"a".toList <:+: "".toList := by
  decide +kernel

end Log

end LoxLang
