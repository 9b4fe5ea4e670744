import DocComments.Text

/-! ASCII letters and digits as ranges of character numbers. No character is in two of the
classes. -/

namespace DocComments

theorem isLower_iff {character : Char} :
    character.isLower = true ↔ 97 ≤ character.toNat ∧ character.toNat ≤ 122 := by
  change (_ && _) = true ↔ _
  rw [Bool.and_eq_true, decide_eq_true_iff, decide_eq_true_iff]
  rfl

theorem isUpper_iff {character : Char} :
    character.isUpper = true ↔ 65 ≤ character.toNat ∧ character.toNat ≤ 90 := by
  change decide _ = true ↔ _
  rw [decide_eq_true_iff]
  rfl

theorem isDigit_iff {character : Char} :
    character.isDigit = true ↔ 48 ≤ character.toNat ∧ character.toNat ≤ 57 := by
  change (_ && _) = true ↔ _
  rw [Bool.and_eq_true, decide_eq_true_iff, decide_eq_true_iff]
  rfl

theorem isAlphanum_iff {character : Char} :
    character.isAlphanum = true ↔
      character.isLower = true ∨ character.isUpper = true ∨ character.isDigit = true := by
  change ((_ || _) || _) = true ↔ _
  rw [Bool.or_eq_true, Bool.or_eq_true, or_assoc, or_left_comm]

theorem not_isUpper_of_isLower {character : Char} (small : character.isLower = true) :
    ¬character.isUpper = true := by
  rw [isLower_iff] at small
  rw [isUpper_iff]
  omega

theorem not_isDigit_of_isLower {character : Char} (small : character.isLower = true) :
    ¬character.isDigit = true := by
  rw [isLower_iff] at small
  rw [isDigit_iff]
  omega

theorem not_isDigit_of_isUpper {character : Char} (capital : character.isUpper = true) :
    ¬character.isDigit = true := by
  rw [isUpper_iff] at capital
  rw [isDigit_iff]
  omega

theorem isLower_of_isUpper {character : Char} (capital : character.isUpper = true) :
    character.isLower = false := by
  rw [Bool.eq_false_iff]
  exact fun small => not_isUpper_of_isLower small capital

end DocComments
