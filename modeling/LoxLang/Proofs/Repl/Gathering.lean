import LoxLang.Proofs.Repl.Balance

/-!
# Entries gathered line by line

An entry that goes on is put before the next line, and the whole is looked at again.  What comes
of it can be told line by line.  What is open at the end of a line is open at the beginning of the
next; a line loses the comment that begins in it outside of any text, and the blanks at its end;
and if nothing is left of it then, it leaves no trace at all, not even a line end.

## Main definitions

* `Entry.openAfter` — what is open behind some lines.
* `Entry.shares` — what is left of each line of an entry.
* `Entry.ofLines`, `Entry.pendingOf` — an entry by its lines, and the text to which the next line
  is added.

## Main results

* `Entry.ofText_pendingOf` — to look at an entry as a whole is to look at it line by line.
* `Entry.pendingOf_eq` — what the next line is added to is the entry and a line end.
-/

namespace LoxLang

/-- The blanks at the end of a text are those of its last part, unless all of that is blank. -/
theorem trimEnd_append (cs ds : List Char) :
    trimEnd (cs ++ ds) = if trimEnd ds = [] then trimEnd cs else cs ++ trimEnd ds := by
  induction cs with
  | nil =>
    by_cases hds : trimEnd ds = []
    · simp [hds]
    · simp [hds]
  | cons c cs ih =>
    rw [List.cons_append, trimEnd, ih]
    by_cases hds : trimEnd ds = []
    · rw [if_pos hds, if_pos hds, trimEnd]
    · rw [if_neg hds, if_neg hds]
      have hne : cs ++ trimEnd ds ≠ [] := by simp [hds]
      obtain ⟨d, es, heq⟩ := List.exists_cons_of_ne_nil hne
      rw [heq, List.cons_append, heq]

/-! ### Lines one below the other -/

/-- Lines, each with a line end behind it. -/
def endedLines (ls : List (List Char)) : List Char := ls.flatMap (· ++ ['\n'])

@[simp] theorem endedLines_nil : endedLines [] = [] := rfl

@[simp] theorem endedLines_cons (l : List Char) (ls : List (List Char)) :
    endedLines (l :: ls) = l ++ '\n' :: endedLines ls := by simp [endedLines]

/-- Lines behind others begin below them. -/
theorem intercalate_append {ls : List (List Char)} (h : ls ≠ []) (ks : List (List Char)) :
    ['\n'].intercalate (ks ++ ls) = endedLines ks ++ ['\n'].intercalate ls := by
  induction ks with
  | nil => rfl
  | cons k ks ih =>
    rw [List.cons_append, List.intercalate_cons_of_ne_nil (by simp [h]), ih]
    simp

/-- The last line need not be ended. -/
theorem intercalate_concat (ls : List (List Char)) (l : List Char) :
    ['\n'].intercalate (ls ++ [l]) = endedLines ls ++ l := by
  rw [intercalate_append (by simp), List.intercalate_singleton]

theorem endedLines_eq {ls : List (List Char)} (h : ls ≠ []) :
    endedLines ls = ['\n'].intercalate ls ++ ['\n'] := by
  obtain ⟨ks, l, rfl⟩ : ∃ ks l, ls = ks ++ [l] := ⟨_, _, (List.dropLast_concat_getLast h).symm⟩
  rw [intercalate_concat]
  simp [endedLines]

/-- Lines that end in no blank end in none one below the other. -/
theorem trimEnd_endedLines {ls : List (List Char)} (h : ∀ l ∈ ls, l ≠ [] ∧ trimEnd l = l) :
    trimEnd (endedLines ls) = ['\n'].intercalate ls := by
  by_cases hls : ls = []
  · simp [hls]
  · rw [endedLines_eq hls, trimEnd_append, if_pos (by decide)]
    obtain ⟨ks, l, rfl⟩ : ∃ ks l, ls = ks ++ [l] :=
      ⟨_, _, (List.dropLast_concat_getLast hls).symm⟩
    obtain ⟨hne, htrim⟩ := h l (by simp)
    rw [intercalate_concat, trimEnd_append, htrim, if_neg hne]

namespace Entry

/-! ### Comments -/

/-- No comment begins with a slash before a character that is none. -/
theorem Passes.before {b : Balance} {cs : List Char} (h : Passes b cs []) {c : Char} (hc : c ≠ '/')
    (rest : List Char) : Passes b cs (c :: rest) := by
  induction cs generalizing b with
  | nil => exact True.intro
  | cons d cs ih =>
    refine ⟨h.1.imp_right fun hnot hcomment => hnot ?_, ih h.2⟩
    cases cs with
    | nil =>
      -- the second slash would be the character behind
      obtain ⟨-, hsecond⟩ := List.cons_prefix_cons.mp hcomment
      exact absurd (List.cons_prefix_cons.mp hsecond).1.symm hc
    | cons e cs =>
      obtain ⟨hfirst, hsecond⟩ := List.cons_prefix_cons.mp hcomment
      obtain ⟨hsecond, -⟩ := List.cons_prefix_cons.mp hsecond
      simp [← hfirst, ← hsecond]

/-! ### Lines -/

/-- What is open behind some lines. -/
def openAfter (b : Balance) : List (List Char) → Balance
  | [] => b
  | l :: ls => openAfter (beforeComment b l).2 ls

/-- What is left of lines without their comments and the blanks at their ends. -/
def shares (b : Balance) : List (List Char) → List (List Char)
  | [] => []
  | l :: ls => trimEnd (beforeComment b l).1 :: shares (beforeComment b l).2 ls

/-- The lines of which something is left. -/
def written (ls : List (List Char)) : List (List Char) := ls.filter fun l => !l.isEmpty

/-- An entry by its lines: what is left of them, one below the other. -/
def ofLines (ls : List (List Char)) : Entry :=
  { text := ['\n'].intercalate (written (shares {} ls)), continues := (openAfter {} ls).isOpen }

/-- The text to which the next line of an entry is added. -/
def pendingOf (ls : List (List Char)) : List Char := endedLines (written (shares {} ls))

@[simp] theorem written_nil : written [] = [] := rfl

theorem written_append (ks ls : List (List Char)) :
    written (ks ++ ls) = written ks ++ written ls := List.filter_append ..

theorem written_cons_nil (ls : List (List Char)) : written ([] :: ls) = written ls := rfl

theorem written_cons {l : List Char} (h : l ≠ []) (ls : List (List Char)) :
    written (l :: ls) = l :: written ls := by simp [written, h]

theorem openAfter_append (b : Balance) (ks ls : List (List Char)) :
    openAfter b (ks ++ ls) = openAfter (openAfter b ks) ls := by
  induction ks generalizing b with
  | nil => rfl
  | cons k ks ih => exact ih _

theorem shares_append (b : Balance) (ks ls : List (List Char)) :
    shares b (ks ++ ls) = shares b ks ++ shares (openAfter b ks) ls := by
  induction ks generalizing b with
  | nil => rfl
  | cons k ks ih => exact congrArg (List.cons _) (ih _)

/-- What is left of a line ends in no blank. -/
theorem trimEnd_of_mem_shares {b : Balance} {ls : List (List Char)} {l : List Char}
    (h : l ∈ shares b ls) : trimEnd l = l := by
  induction ls generalizing b with
  | nil => cases h
  | cons k ls ih =>
    rcases List.mem_cons.mp h with rfl | h
    · exact trimEnd_trimEnd _
    · exact ih h

theorem of_mem_written {b : Balance} {ls : List (List Char)} {l : List Char}
    (h : l ∈ written (shares b ls)) : l ≠ [] ∧ trimEnd l = l := by
  obtain ⟨hmem, hne⟩ := List.mem_filter.mp h
  exact ⟨by simpa using hne, trimEnd_of_mem_shares hmem⟩

/-! ### A line and what is left of it -/

/-- What is left of a line passes, whatever is on the next line. -/
theorem passes_share (b : Balance) (l rest : List Char) :
    Passes b (trimEnd (beforeComment b l).1 ++ ['\n']) rest := by
  obtain ⟨cut, -, hpasses, -⟩ := beforeComment_spec b l
  obtain ⟨blanks, htrim, -⟩ := trimEnd_append_blanks (beforeComment b l).1
  generalize trimEnd (beforeComment b l).1 = share at htrim
  rw [htrim] at hpasses
  have hshare : Passes b share [] := by
    refine hpasses.of_prefix ?_ (by simp)
    rw [List.append_nil, List.append_assoc]
    exact List.prefix_append _ _
  exact passes_append_iff.mpr ⟨hshare.before (by decide) rest, passes_of_notMem (by decide) rest⟩

/-- What is left of a line opens and closes what the line does. -/
theorem afterAll_share (b : Balance) (l : List Char) :
    b.afterAll (trimEnd (beforeComment b l).1) = (beforeComment b l).2 := by
  obtain ⟨cut, -, -, hover, -⟩ := beforeComment_spec b l
  obtain ⟨blanks, htrim, hblanks⟩ := trimEnd_append_blanks (beforeComment b l).1
  rw [hover]
  generalize trimEnd (beforeComment b l).1 = share at htrim
  rw [htrim, Balance.afterAll_append]
  symm
  apply Balance.afterAll_of_isNeutral
  intro c hc
  exact Balance.isNeutral_of_isBlank (hblanks c hc)

/-- The comment in the line behind lines that have been gathered is found as if the line stood
alone, with the same things open before it. -/
theorem beforeComment_gathered (b : Balance) (ls : List (List Char)) (rest : List Char) :
    beforeComment b (endedLines (written (shares b ls)) ++ rest)
      = (endedLines (written (shares b ls)) ++ (beforeComment (openAfter b ls) rest).1,
        (beforeComment (openAfter b ls) rest).2) := by
  induction ls generalizing b with
  | nil => rfl
  | cons l ls ih =>
    have hopen := afterAll_share b l
    have hpasses := passes_share b l
    have hlater := ih (beforeComment b l).2
    rw [shares, openAfter]
    generalize trimEnd (beforeComment b l).1 = share at hopen hpasses
    by_cases hshare : share = []
    · -- nothing is left of the line, so nothing is opened or closed in it
      subst hshare
      rw [Balance.afterAll_nil] at hopen
      rw [← hopen] at hlater ⊢
      rw [written_cons_nil, hlater]
    · have hend : b.afterAll (share ++ ['\n']) = (beforeComment b l).2 := by
        rw [Balance.afterAll_append, hopen]
        exact Balance.afterAll_of_isNeutral _ (List.forall_mem_singleton.mpr (by decide))
      have hsplit : ∀ cs, share ++ '\n' :: cs = (share ++ ['\n']) ++ cs := by simp
      rw [written_cons hshare, endedLines_cons, hsplit, List.append_assoc,
        beforeComment_append (hpasses _), hend, hlater]
      simp

/-! ### Entries by their lines -/

/-- **To look at an entry as a whole is to look at it line by line.** -/
theorem ofText_pendingOf (ls : List (List Char)) (l : List Char) :
    ofText (pendingOf ls ++ l) = ofLines (ls ++ [l]) := by
  rw [pendingOf, ofText_eq (beforeComment_gathered {} ls l), trimEnd_append]
  have hopen : openAfter {} (ls ++ [l]) = (beforeComment (openAfter {} ls) l).2 := by
    rw [openAfter_append]
    rfl
  have hwritten : written (shares {} (ls ++ [l]))
      = written (shares {} ls) ++ written [trimEnd (beforeComment (openAfter {} ls) l).1] := by
    rw [shares_append, written_append]
    rfl
  rw [ofLines, hopen, hwritten]
  congr 1
  by_cases hshare : trimEnd (beforeComment (openAfter {} ls) l).1 = []
  · rw [if_pos hshare, hshare, written_cons_nil, written_nil, List.append_nil]
    exact trimEnd_endedLines fun _ => of_mem_written
  · rw [if_neg hshare, written_cons hshare, written_nil, intercalate_concat]

/-- An empty line adds nothing to an entry. -/
theorem ofLines_concat_nil (ls : List (List Char)) : ofLines (ls ++ [[]]) = ofLines ls := by
  rw [ofLines, ofLines, shares_append, openAfter_append, written_append]
  simp [shares, openAfter, beforeComment, written]

/-- Where something is open, something is left of the lines. -/
theorem written_ne_nil {ls : List (List Char)} (h : (ofLines ls).continues = true) :
    written (shares {} ls) ≠ [] := by
  intro hnil
  have hnothing := congrArg Prod.snd (beforeComment_gathered {} ls [])
  rw [hnil] at hnothing
  have hclosed : openAfter {} ls = {} := hnothing.symm
  rw [ofLines, hclosed] at h
  cases h

/-- What the next line is added to is the entry and a line end. -/
theorem pendingOf_eq {ls : List (List Char)} (h : (ofLines ls).continues = true) :
    pendingOf ls = (ofLines ls).text ++ ['\n'] := endedLines_eq (written_ne_nil h)

/-- To look at what the next line is added to gives the entry again. -/
theorem ofText_pendingOf_self (ls : List (List Char)) : ofText (pendingOf ls) = ofLines ls := by
  have hempty := ofText_pendingOf ls []
  rwa [List.append_nil, ofLines_concat_nil] at hempty

end Entry

end LoxLang
