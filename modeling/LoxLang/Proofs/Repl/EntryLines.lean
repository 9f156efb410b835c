import LoxLang.Proofs.Repl.Conversation
import LoxLang.Proofs.Token.LineNumbers

/-!
# Line numbers in entries

The lines of an entry are counted as they are fed, and the tokens of the entry are numbered when
it is run, from the number of its first line on.  A line of which nothing is left without its
comment and its blanks leaves no line end in the text of the entry either.  So a token has the
number of the line on which it ends, less the lines of the entry before it of which nothing is
left.

## Main definitions

* `Repl.entered` — a terminal that has been given lines of entries.
* `Entry.lost` — how many lines of an entry before one of them leave nothing.
* `Entry.EndsOn` — a token ends in what is left of a line of an entry.

## Main results

* `Entry.exists_endsOn` — every token ends in what is left of some line.
* `Entry.line_of_endsOn` — the number of a token by the line on which it ends.
* `Repl.entered_numbers` — **the tokens of an entry and the lines that were fed.**
* `Repl.comment_line_uncounted` — a line with nothing but a comment puts the numbers wrong.
-/

namespace LoxLang

/-! ### Line ends -/

theorem count_endedLines {ls : List (List Char)} (h : ∀ l ∈ ls, '\n' ∉ l) :
    (endedLines ls).count '\n' = ls.length := by
  induction ls with
  | nil => rfl
  | cons l ls ih =>
    obtain ⟨hl, hls⟩ := List.forall_mem_cons.mp h
    rw [endedLines_cons, List.count_append, List.count_cons_self, ih hls,
      List.count_eq_zero.mpr hl]
    simp

namespace Entry

theorem length_written (ls : List (List Char)) : (written ls).length + ls.count [] = ls.length := by
  induction ls with
  | nil => rfl
  | cons l ls ih =>
    by_cases hl : l = []
    · rw [hl, written_cons_nil, List.count_cons_self, List.length_cons]
      omega
    · rw [written_cons hl, List.count_cons_of_ne hl, List.length_cons, List.length_cons]
      omega

theorem shares_take (b : Balance) (ls : List (List Char)) (k : Nat) :
    shares b (ls.take k) = (shares b ls).take k := by
  induction ls generalizing b k with
  | nil => simp [shares]
  | cons l ls ih =>
    cases k with
    | zero => rfl
    | succ k => exact congrArg (List.cons _) (ih _ k)

/-- What is left of a line is a beginning of it. -/
theorem exists_line_of_share {b : Balance} {ls : List (List Char)} {k : Nat} {part : List Char}
    (h : (shares b ls)[k]? = some part) : ∃ l, ls[k]? = some l ∧ part <+: l := by
  induction ls generalizing b k with
  | nil => simp [shares] at h
  | cons l ls ih =>
    cases k with
    | zero =>
      cases h
      obtain ⟨cut, hline, -⟩ := beforeComment_spec b l
      obtain ⟨blanks, htrim, -⟩ := trimEnd_append_blanks (beforeComment b l).1
      refine ⟨l, rfl, blanks ++ cut, ?_⟩
      rw [← List.append_assoc, ← htrim, ← hline]
    | succ k => exact ih h

theorem notMem_shares {ls : List (List Char)} {c : Char} (h : ∀ l ∈ ls, c ∉ l) {b : Balance} :
    ∀ l ∈ shares b ls, c ∉ l := by
  intro part hpart hmem
  obtain ⟨k, hk⟩ := List.mem_iff_getElem?.mp hpart
  obtain ⟨l, hl, hbegins⟩ := exists_line_of_share hk
  exact h l (List.mem_of_getElem? hl) (hbegins.subset hmem)

/-! ### The parts of an entry -/

/-- What is left of a line stands behind what is left of those before it. -/
theorem exists_intercalate_eq {ls : List (List Char)} {k : Nat} {part : List Char}
    (hpart : ls[k]? = some part) (hne : part ≠ []) :
    ∃ behind, ['\n'].intercalate (written ls)
      = endedLines (written (ls.take k)) ++ part ++ behind := by
  obtain ⟨hk, hget⟩ := List.getElem?_eq_some_iff.mp hpart
  have hsplit : ls = ls.take k ++ part :: ls.drop (k + 1) := by
    rw [← hget, List.getElem_cons_drop, List.take_append_drop]
  have hwritten : written ls
      = written (ls.take k) ++ part :: written (ls.drop (k + 1)) := by
    rw [← written_cons hne, ← written_append, ← hsplit]
  rw [hwritten, intercalate_append (by simp)]
  cases written (ls.drop (k + 1)) with
  | nil => exact ⟨[], by simp⟩
  | cons l later =>
    refine ⟨'\n' :: ['\n'].intercalate (l :: later), ?_⟩
    simp [List.intercalate_cons_cons]

/-- A text that ends within lines, but not with a line end, ends in one of them. -/
theorem exists_part {ls : List (List Char)} {u : List Char} (hne : u ≠ [])
    (hend : u.getLast? ≠ some '\n') (h : u <+: ['\n'].intercalate (written ls)) :
    ∃ k part, ls[k]? = some part ∧ (endedLines (written (ls.take k))).length < u.length
      ∧ u.length ≤ (endedLines (written (ls.take k))).length + part.length := by
  have hpos : 0 < u.length := List.length_pos_iff.mpr hne
  induction ls generalizing u with
  | nil => exact absurd (List.prefix_nil.mp h) hne
  | cons l ls ih =>
    by_cases hl : l = []
    · -- nothing is left of the line, so the text ends in a later one
      subst hl
      obtain ⟨k, part, hpart, hbefore, hwithin⟩ := ih hne hend h hpos
      exact ⟨k + 1, part, hpart, hbefore, hwithin⟩
    by_cases hlength : u.length ≤ l.length
    · exact ⟨0, l, rfl, by simpa using hpos, by simpa using hlength⟩
    rw [written_cons hl] at h
    have hlater : written ls ≠ [] := by
      intro hnil
      have hle := h.length_le
      rw [hnil, List.intercalate_singleton] at hle
      exact hlength hle
    rw [List.intercalate_cons_of_ne_nil hlater, List.append_assoc] at h
    -- the text has all of the line, its end, and more
    obtain ⟨u, rfl⟩ : l <+: u :=
      List.prefix_of_prefix_length_le (List.prefix_append _ _) h (by omega)
    cases u with
    | nil => simp at hlength
    | cons d u =>
      obtain ⟨rfl, hrest⟩ := List.cons_prefix_cons.mp ((List.prefix_append_right_inj l).mp h)
      have hu : u ≠ [] := by
        rintro rfl
        simp at hend
      obtain ⟨d, u, rfl⟩ := List.exists_cons_of_ne_nil hu
      have hend : (d :: u).getLast? ≠ some '\n' := by
        simpa [List.getLast?_append, List.getLast?_cons] using hend
      obtain ⟨k, part, hpart, hbefore, hwithin⟩ := ih hu hend hrest (by simp)
      refine ⟨k + 1, part, hpart, ?_, ?_⟩
      · rw [List.take_succ_cons, written_cons hl, endedLines_cons]
        simp only [List.length_append, List.length_cons] at hbefore ⊢
        omega
      · rw [List.take_succ_cons, written_cons hl, endedLines_cons]
        simp only [List.length_append, List.length_cons] at hwithin ⊢
        omega

/-! ### Tokens on lines -/

/-- How many lines of an entry before the one at a place leave nothing. -/
def lost (ls : List (List Char)) (k : Nat) : Nat := ((shares {} ls).take k).count []

/-- A token of an entry that begins at a position ends in what is left of the line at a place,
a beginning of that line, which stands behind what was pending before the line. -/
def EndsOn (ls : List (List Char)) (k position : Nat) (t : Token) : Prop :=
  ∃ l part behind, ls[k]? = some l ∧ (shares {} ls)[k]? = some part ∧ part <+: l
    ∧ (ofLines ls).text = pendingOf (ls.take k) ++ part ++ behind
    ∧ position + (pendingOf (ls.take k)).length < t.position + t.lexeme.length
    ∧ t.position + t.lexeme.length ≤ position + (pendingOf (ls.take k)).length + part.length

variable {ls : List (List Char)} {line : Int} {position k : Nat} {t : Token}

/-- A token ends where the text up to its end does. -/
theorem end_of_standing {before : List Char} (h : t.position = position + before.length) :
    t.position + t.lexeme.length = position + (before ++ t.lexeme.toList).length := by
  rw [h, List.length_append, String.length_toList, Nat.add_assoc]

theorem EndsOn.lt_length (h : EndsOn ls k position t) : k < ls.length := by
  obtain ⟨l, -, -, hl, -⟩ := h
  exact (List.getElem?_eq_some_iff.mp hl).1

/-- Every token ends in what is left of some line. -/
theorem exists_endsOn
    (ht : t ∈ (Lexed.ofText (String.ofList (ofLines ls).text) line position).tokens) :
    ∃ k, EndsOn ls k position t := by
  obtain ⟨before, behind, htext, hposition, -, w, c, hlast, hc⟩ :=
    Lexed.exists_standing_of_mem_tokens line position ht
  rw [String.toList_ofList] at htext
  have hbegins : before ++ t.lexeme.toList <+: ['\n'].intercalate (written (shares {} ls)) :=
    ⟨behind, htext.symm⟩
  have hend : (before ++ t.lexeme.toList).getLast? ≠ some '\n' := by
    rw [hlast, ← List.append_assoc, List.getLast?_concat]
    rintro ⟨rfl⟩
    cases hc
  obtain ⟨k, part, hpart, hbefore, hwithin⟩ := exists_part (by simp [hlast]) hend hbegins
  have hne : part ≠ [] := by
    rintro rfl
    rw [List.length_nil] at hwithin
    omega
  have hlength := end_of_standing hposition
  obtain ⟨later, hsplit⟩ := exists_intercalate_eq hpart hne
  obtain ⟨l, hl, hpl⟩ := exists_line_of_share hpart
  rw [← shares_take] at hbefore hwithin hsplit
  refine ⟨k, l, part, later, hl, hpart, hpl, hsplit, ?_, ?_⟩
  · rw [hlength]
    exact Nat.add_lt_add_left hbefore position
  · rw [hlength, Nat.add_assoc]
    exact Nat.add_le_add_left hwithin position

/-- The number of a token is that of the line on which it ends, less the lines before it that
leave nothing. -/
theorem line_of_endsOn (hlines : ∀ l ∈ ls, '\n' ∉ l)
    (ht : t ∈ (Lexed.ofText (String.ofList (ofLines ls).text) line position).tokens)
    (hk : EndsOn ls k position t) : t.line + lost ls k = line + k := by
  obtain ⟨before, behind, htext, hposition, hline, -⟩ :=
    Lexed.exists_standing_of_mem_tokens line position ht
  obtain ⟨-, part, later, -, hpart, -, hsplit, hbefore, hwithin⟩ := hk
  rw [String.toList_ofList, hsplit] at htext
  have hlength := end_of_standing hposition
  generalize before ++ t.lexeme.toList = u at htext hline hlength
  rw [hlength] at hbefore hwithin
  -- the text up to the end of the token is what was pending and some of the line
  obtain ⟨w, rfl⟩ : pendingOf (ls.take k) <+: u := by
    refine List.prefix_of_prefix_length_le ?_ ⟨behind, htext.symm⟩ (by omega)
    exact ⟨part ++ later, by simp⟩
  have hw : w <+: part := by
    rw [List.append_assoc, List.append_assoc] at htext
    have htail := List.append_cancel_left htext
    refine List.prefix_of_prefix_length_le ⟨behind, htail.symm⟩ (List.prefix_append part later) ?_
    rw [List.length_append] at hwithin
    omega
  have hshares : ∀ l ∈ shares {} ls, '\n' ∉ l := notMem_shares hlines
  have hnone : w.count '\n' = 0 := by
    apply List.count_eq_zero.mpr
    intro hmem
    exact hshares part (List.mem_of_getElem? hpart) (hw.subset hmem)
  have hended : (pendingOf (ls.take k)).count '\n' = (written ((shares {} ls).take k)).length := by
    rw [pendingOf, shares_take]
    apply count_endedLines
    intro l hl
    exact hshares l (List.mem_of_mem_take (List.mem_filter.mp hl).1)
  have hall := length_written ((shares {} ls).take k)
  have hplace := (List.getElem?_eq_some_iff.mp hpart).1
  rw [List.length_take, Nat.min_eq_left (Nat.le_of_lt hplace)] at hall
  rw [hline, Lexed.lineEnds, List.count_append, hended, hnone, lost]
  omega

/-- Before its last line, an entry is one that goes on. -/
theorem Division.take {fed : List (List Char)} {done : List (List (List Char))}
    {e : List (List Char)} (h : Division fed (done ++ [e]) []) {k : Nat} (hk : k < e.length) :
    Division (done.flatten ++ e.take k) done (e.take k) := by
  refine ⟨rfl, fun e' he' => h.whole e' (List.mem_append_left _ he'), ?_⟩
  intro ks hks hne
  refine (h.whole e (by simp)).goesOn ks (hks.trans (List.take_prefix k e)) hne ?_
  rintro rfl
  have hle := hks.length_le
  rw [List.length_take] at hle
  omega

end Entry

/-! ### Lines that are fed -/

namespace Repl

/-- A terminal that has been given lines of entries from its start on. -/
def entered (i : Interpreter) (lines : List (List Char)) : Repl :=
  lines.foldl (fun r line => (r.enter line).1) { interpreter := i }

theorem entered_concat (i : Interpreter) (lines : List (List Char)) (line : List Char) :
    entered i (lines ++ [line]) = ((entered i lines).enter line).1 := by
  rw [entered, List.foldl_append]
  rfl

theorem entered_eq (i : Interpreter) (lines : List (List Char)) :
    entered i lines = Repl.obeyAll { interpreter := i } (lines.map .enter) := by
  rw [entered, obeyAll, List.foldl_map]
  rfl

theorem filterMap_entered (lines : List (List Char)) :
    (lines.map Command.enter).filterMap Command.entered? = lines := by
  simp [List.filterMap_map, Function.comp_def, Command.entered?]

/-- The lines that were fed are counted. -/
theorem lineCount_entered (i : Interpreter) (lines : List (List Char)) :
    (entered i lines).lineCount = lines.length := by
  obtain ⟨done, rest, deeds, h⟩ := exists_tallies i (lines.map .enter)
  rw [entered_eq, h.lineCount, filterMap_entered]

variable {i : Interpreter} {lines : List (List Char)} {done : List (List (List Char))}
  {rest e : List (List Char)}

/-- The entries into which the lines fall are those the terminal has found in them. -/
theorem tallies_entered (i : Interpreter) (h : Entry.Division lines done rest) :
    ∃ deeds, Tallies i (lines.map .enter) (entered i lines) done rest deeds := by
  obtain ⟨done', rest', deeds, htallies⟩ := exists_tallies i (lines.map .enter)
  have hdivision := htallies.division
  rw [filterMap_entered] at hdivision
  obtain ⟨rfl, rfl⟩ := h.unique hdivision
  rw [entered_eq]
  exact ⟨deeds, htallies⟩

/-- What is pending before a line of an entry. -/
theorem pending_entered (i : Interpreter) (h : Entry.Division lines (done ++ [e]) []) {k : Nat}
    (hk : k < e.length) :
    (entered i (done.flatten ++ e.take k)).pending = Entry.pendingOf (e.take k) := by
  obtain ⟨deeds, htallies⟩ := tallies_entered i (h.take hk)
  exact htallies.pending

/-- With its last line, an entry is run from the number of its first line on. -/
theorem interpreter_entered (i : Interpreter) (h : Entry.Division lines (done ++ [e]) [])
    (htext : (Entry.ofLines e).text ≠ []) :
    (entered i lines).interpreter = (entered i lines.dropLast).interpreter.perform
      (.run (Entry.ofLines e).text (1 + done.flatten.length)) := by
  have hwhole := h.whole e (by simp)
  obtain ⟨ks, last, rfl⟩ : ∃ ks last, e = ks ++ [last] :=
    ⟨_, _, (List.dropLast_concat_getLast hwhole.ne_nil).symm⟩
  have hlines : lines = done.flatten ++ ks ++ [last] := by simp [h.lines_eq]
  have hbefore : Entry.Division (done.flatten ++ ks) done ks := by
    simpa using h.take (k := ks.length) (by simp)
  obtain ⟨deeds, htallies⟩ := tallies_entered i hbefore
  rw [hlines, List.dropLast_concat, entered_concat,
    enter_of_not_continues htallies.pending hwhole.ends, htallies.entryLine_eq]
  simp only [Entry.run?, htext, if_false, Option.elim_some]

/-- **The tokens of an entry and the lines that were fed.**  An entry is run when its last line is
fed.  Each token of what is run ends in what is left of a line of the entry, and its number is the
count of lines when that line had been fed, less the lines of the entry before that line of which
nothing is left. -/
theorem entered_numbers (i : Interpreter) {lines : List (List Char)}
    {done : List (List (List Char))} {e : List (List Char)}
    (h : Entry.Division lines (done ++ [e]) []) (hlines : ∀ l ∈ lines, '\n' ∉ l)
    (htext : (Entry.ofLines e).text ≠ []) :
    (entered i lines).interpreter = (entered i lines.dropLast).interpreter.perform
        (.run (Entry.ofLines e).text (1 + done.flatten.length))
      ∧ (∀ k < e.length,
        (entered i (done.flatten ++ e.take k)).pending = Entry.pendingOf (e.take k))
      ∧ ∀ position, ∀ t ∈ (Lexed.ofText (String.ofList (Entry.ofLines e).text)
          ((1 + done.flatten.length : Nat) : Int) position).tokens,
        (∃ k, Entry.EndsOn e k position t)
          ∧ ∀ k, Entry.EndsOn e k position t → t.line + Entry.lost e k
            = (entered i (done.flatten ++ e.take (k + 1))).lineCount := by
  have he : ∀ l ∈ e, '\n' ∉ l := by
    intro l hl
    apply hlines
    simp [h.lines_eq, hl]
  refine ⟨interpreter_entered i h htext, fun k hk => pending_entered i h hk, ?_⟩
  intro position t ht
  refine ⟨Entry.exists_endsOn ht, ?_⟩
  intro k hk
  have hplace := hk.lt_length
  rw [Entry.line_of_endsOn he ht hk, lineCount_entered, List.length_append, List.length_take]
  omega

/-- A block with a line of which nothing is left. -/
def commentedBlock : List (List Char) := [['\x7b'], "// c".toList, "a;".toList, ['\x7d']]

theorem division_commentedBlock (h : Entry.Division lines done []) :
    Entry.Division (lines ++ commentedBlock) (done ++ [commentedBlock]) [] := by
  have hblock := h.line_of_continues (l := ['\x7b']) (by decide +kernel)
    |>.line_of_continues (l := "// c".toList) (by decide +kernel)
    |>.line_of_continues (l := "a;".toList) (by decide +kernel)
    |>.line_of_not_continues (l := ['\x7d']) (by decide +kernel)
  simp only [List.append_assoc] at hblock
  exact hblock

/-- The name in the block, on a line with a number. -/
def nameInBlock (line : Int) : Token := { kind := .identifier, lexeme := "a", line, position := 2 }

theorem endsOn_commentedBlock (line : Int) :
    Entry.EndsOn commentedBlock 2 0 (nameInBlock line) := by
  refine ⟨"a;".toList, "a;".toList, ['\n', '\x7d'], ?_⟩
  simp only [nameInBlock]
  decide +kernel

/-- Behind an entry of one line, the name in the block is on the fourth line that was fed and has
the number three. -/
theorem entered_numbers_commentedBlock :
    nameInBlock 3 ∈ (Lexed.ofText (String.ofList (Entry.ofLines commentedBlock).text) 2 0).tokens
      ∧ Entry.EndsOn commentedBlock 2 0 (nameInBlock 3)
      ∧ (3 : Int) + Entry.lost commentedBlock 2
        = (entered { log := {}, machine := Machine.initial default }
            ("nil;".toList :: commentedBlock.take 3)).lineCount
      ∧ Entry.lost commentedBlock 2 = 1 := by
  have hentry := Entry.division_nil.line_of_not_continues (l := "nil;".toList) (by decide +kernel)
  have hname : nameInBlock 3
      ∈ (Lexed.ofText (String.ofList (Entry.ofLines commentedBlock).text) 2 0).tokens := by
    decide +kernel
  obtain ⟨-, -, hnumbers⟩ := entered_numbers { log := {}, machine := Machine.initial default }
    (division_commentedBlock hentry) (by decide +kernel) (by decide +kernel)
  exact ⟨hname, endsOn_commentedBlock 3, (hnumbers 0 _ hname).2 2 (endsOn_commentedBlock 3),
    by decide +kernel⟩

/-- A line with nothing but a comment is counted when it is fed, and not when its entry is run. -/
theorem comment_line_uncounted :
    ¬∀ (i : Interpreter) (lines : List (List Char)) (done : List (List (List Char)))
        (e : List (List Char)), Entry.Division lines (done ++ [e]) [] → (∀ l ∈ lines, '\n' ∉ l) →
      ∀ position, ∀ t ∈ (Lexed.ofText (String.ofList (Entry.ofLines e).text)
          ((1 + done.flatten.length : Nat) : Int) position).tokens,
        ∀ k, Entry.EndsOn e k position t
          → t.line = (entered i (done.flatten ++ e.take (k + 1))).lineCount := by
  intro h
  have hname := h { log := {}, machine := Machine.initial default } commentedBlock [] commentedBlock
    (division_commentedBlock Entry.division_nil) (by decide +kernel) 0 (nameInBlock 2)
    (by decide +kernel) 2 (endsOn_commentedBlock 2)
  rw [lineCount_entered] at hname
  exact absurd hname (by decide +kernel)

end Repl

end LoxLang
