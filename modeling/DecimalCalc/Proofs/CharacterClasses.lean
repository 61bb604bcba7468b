import DecimalCalc.Text.Blank
import DecimalCalc.Text.DecimalDigit
import DecimalCalc.Text.Letter

/-!
# Classes of characters that exclude one another

No blank character is a letter or a digit. There are few blank characters, so each of them is looked
up in the tables of the other two classes. No digit is a letter either, which is looked up for a whole
row of ten digits at once.
-/

set_option autoImplicit false

namespace DecimalCalc

namespace Text

/-- The code points of some ranges. -/
def points (ranges : List (Nat × Nat)) : List Nat :=
  ranges.flatMap fun range => List.range' range.1 (range.2 + 1 - range.1)

theorem mem_points_of_inRanges {point : Nat} {ranges : List (Nat × Nat)}
    (h : inRanges point ranges = true) : point ∈ points ranges := by
  induction ranges with
  | nil => cases h
  | cons range ranges ih =>
      obtain ⟨first, last⟩ := range
      rw [points, List.flatMap_cons, List.mem_append]
      rw [inRanges] at h
      split at h
      · cases h
      · split at h
        · refine .inl (List.mem_range'_1.mpr ?_)
          omega
        · exact .inr (ih h)

/-- The ranges of the blank characters. -/
def blankRanges : List (Nat × Nat) := whiteSpaceRanges ++ [(0x1C, 0x1F)]

theorem mem_points_of_isBlank {c : Char} (h : isBlank c = true) :
    c.toNat ∈ points blankRanges := by
  rw [points, blankRanges, List.flatMap_append, List.mem_append]
  rw [isBlank, Bool.or_eq_true] at h
  exact h.imp mem_points_of_inRanges mem_points_of_inRanges

/-- **No blank character is a letter.** -/
theorem isLetter_of_isBlank {c : Char} (h : isBlank c = true) : isLetter c = false := by
  have htable : ∀ point ∈ points blankRanges, inRanges point letterRanges = false := by
    decide +kernel
  exact htable _ (mem_points_of_isBlank h)

/-- **No blank character is a digit.** -/
theorem isDigit_of_isBlank {c : Char} (h : isBlank c = true) : isDigit c = false := by
  have htable : ∀ point ∈ points blankRanges, (valueInRows point zeroPoints).isSome = false := by
    decide +kernel
  exact htable _ (mem_points_of_isBlank h)

/-- Whether a row of ten code points lies between two ascending ranges. -/
def rowBetween (first : Nat) : List (Nat × Nat) → Bool
  | [] => true
  | (low, high) :: rest =>
    bif Nat.blt high first then rowBetween first rest else Nat.blt (first + 9) low

theorem inRanges_of_rowBetween {first point : Nat} (h : first ≤ point) (h' : point < first + 10)
    {ranges : List (Nat × Nat)} (between : rowBetween first ranges = true) :
    inRanges point ranges = false := by
  induction ranges with
  | nil => rfl
  | cons range ranges ih =>
      obtain ⟨low, high⟩ := range
      rw [rowBetween, cond_eq_ite] at between
      rw [inRanges]
      split at between
      · rename_i hbelow
        have hhigh : high < first := by simpa using hbelow
        rw [if_neg (show ¬point ≤ high by omega), ih between, ite_self]
      · have hlow : first + 9 < low := by simpa using between
        rw [if_pos (by omega)]

/-- A digit stands in the row of a zero. -/
theorem exists_row_of_isDigit {c : Char} (h : isDigit c = true) :
    ∃ first ∈ zeroPoints, first ≤ c.toNat ∧ c.toNat < first + 10 := by
  obtain ⟨value, hvalue⟩ := Option.isSome_iff_exists.mp h
  rw [digitValue?] at hvalue
  generalize zeroPoints = zeros at hvalue
  induction zeros with
  | nil => cases hvalue
  | cons first zeros ih =>
      rw [valueInRows] at hvalue
      split at hvalue
      · cases hvalue
      · split at hvalue
        · exact ⟨first, List.mem_cons_self, by omega, by omega⟩
        · obtain ⟨first', hmem, hrow⟩ := ih hvalue
          exact ⟨first', List.mem_cons_of_mem first hmem, hrow⟩

/-- **No digit is a letter.** -/
theorem isLetter_of_isDigit {c : Char} (h : isDigit c = true) : isLetter c = false := by
  have htable : (zeroPoints.all fun first => rowBetween first letterRanges) = true := by
    decide +kernel
  obtain ⟨first, hmem, hle, hlt⟩ := exists_row_of_isDigit h
  exact inRanges_of_rowBetween hle hlt (List.all_eq_true.mp htable first hmem)

theorem isBlank_of_isWhiteSpace {c : Char} (h : isWhiteSpace c = true) : isBlank c = true := by
  rw [isBlank, h, Bool.true_or]

theorem isWhiteSpace_of_isLetter {c : Char} (h : isLetter c = true) : isWhiteSpace c = false := by
  refine Bool.eq_false_iff.mpr fun hspace => ?_
  rw [isLetter_of_isBlank (isBlank_of_isWhiteSpace hspace)] at h
  cases h

theorem isWhiteSpace_of_isDigit {c : Char} (h : isDigit c = true) : isWhiteSpace c = false := by
  refine Bool.eq_false_iff.mpr fun hspace => ?_
  rw [isDigit_of_isBlank (isBlank_of_isWhiteSpace hspace)] at h
  cases h

end Text

end DecimalCalc
