import LoxLang.Text.Ranges

/-!
# Blank characters

The characters that separate words without meaning anything: the white space of
the Unicode standard together with the four information separators
`U+001C`–`U+001F`.  They are skipped between tokens and trimmed off the ends of
an entry.

## Main definitions

* `isBlank` — the class of blank characters.
* `trimEnd`, `trim` — a text without its blanks at the end, or at both ends.

## References

What the reference's `Scanner.scan_token` skips and `Session.preprocess_line` strips.
-/

namespace LoxLang

/-- The code points of the blank characters. -/
def blankRanges : CodeRanges :=
  [(0x09, 0x0d), (0x1c, 0x20), (0x85, 0x85), (0xa0, 0xa0), (0x1680, 0x1680), (0x2000, 0x200a),
   (0x2028, 0x2029), (0x202f, 0x202f), (0x205f, 0x205f), (0x3000, 0x3000)]

/-- Whether a character is blank. -/
def isBlank (c : Char) : Bool := blankRanges.has c.toNat

/-- The text without the blanks at its end. -/
def trimEnd : List Char → List Char
  | [] => []
  | c :: cs =>
      match trimEnd cs with
      | [] => if isBlank c then [] else [c]
      | d :: ds => c :: d :: ds

/-- The text without the blanks at its two ends. -/
def trim (cs : List Char) : List Char := trimEnd (cs.dropWhile isBlank)

@[simp] theorem trimEnd_nil : trimEnd [] = [] := rfl

/-- Trimming removes a run of blanks from the end and nothing else. -/
theorem trimEnd_append_blanks (cs : List Char) :
    ∃ bs : List Char, cs = trimEnd cs ++ bs ∧ ∀ b ∈ bs, isBlank b := by
  induction cs with
  | nil => exact ⟨[], rfl, by simp⟩
  | cons c cs ih =>
    obtain ⟨bs, hcs, hbs⟩ := ih
    rw [trimEnd]
    cases ht : trimEnd cs with
    | cons d ds =>
      rw [ht] at hcs
      exact ⟨bs, by simp [hcs], hbs⟩
    | nil =>
      rw [ht] at hcs
      by_cases hc : isBlank c
      · exact ⟨c :: bs, by simp [hc, hcs], by simpa [hc] using hbs⟩
      · exact ⟨bs, by simp [hc, hcs], hbs⟩

/-- Trimming twice is trimming once. -/
theorem trimEnd_trimEnd (cs : List Char) : trimEnd (trimEnd cs) = trimEnd cs := by
  induction cs with
  | nil => rfl
  | cons c cs ih =>
    rw [trimEnd]
    cases ht : trimEnd cs with
    | cons d ds =>
      rw [ht] at ih
      simp only
      rw [trimEnd, ih]
    | nil =>
      by_cases hc : isBlank c <;> simp [hc, trimEnd]

end LoxLang
