import ProgramTree.Builders

namespace ProgramTree

section Tables

variable {ranges others : List (Nat × Nat)} {c : Char}

theorem inRanges_iff :
    inRanges ranges c = true ↔ ∃ range ∈ ranges, range.1 ≤ c.toNat ∧ c.toNat ≤ range.2 := by
  simp [inRanges]

/-- Every range lies within a range of the other table. -/
def coveredBy (ranges others : List (Nat × Nat)) : Bool :=
  ranges.all fun range => others.any fun other => other.1 ≤ range.1 && range.2 ≤ other.2

/-- No range meets a range of the other table. -/
def apartFrom (ranges others : List (Nat × Nat)) : Bool :=
  ranges.all fun range => others.all fun other => range.2 < other.1 || other.2 < range.1

theorem inRanges_of_coveredBy (h : coveredBy ranges others = true)
    (hc : inRanges ranges c = true) : inRanges others c = true := by
  obtain ⟨range, hr, hlow, hhigh⟩ := inRanges_iff.mp hc
  obtain ⟨other, ho, hb⟩ := List.any_eq_true.mp (List.all_eq_true.mp h range hr)
  simp only [Bool.and_eq_true, decide_eq_true_eq] at hb
  exact inRanges_iff.mpr ⟨other, ho, by omega, by omega⟩

theorem inRanges_eq_false_of_apartFrom (h : apartFrom ranges others = true)
    (hc : inRanges ranges c = true) : inRanges others c = false := by
  refine Bool.eq_false_iff.mpr fun ho => ?_
  obtain ⟨range, hr, hlow, hhigh⟩ := inRanges_iff.mp hc
  obtain ⟨other, hm, hfrom, hto⟩ := inRanges_iff.mp ho
  have hb := List.all_eq_true.mp (List.all_eq_true.mp h range hr) other hm
  simp only [Bool.or_eq_true, decide_eq_true_eq] at hb
  omega

theorem unalphabeticStarts_covered :
    coveredBy unalphabeticStartRanges identifierStartRanges = true := by
  decide +kernel

theorem unalphabeticStarts_apart :
    apartFrom unalphabeticStartRanges alphabeticMarkRanges = true := by
  decide +kernel

/-- The table lists the characters that may open an identifier and are not alphabetic. -/
theorem start_and_not_alphabetic (c : Char) :
    (isIdentifierStart c && !isAlphabetic c) = inRanges unalphabeticStartRanges c := by
  cases hu : inRanges unalphabeticStartRanges c with
  | true =>
    have hs : isIdentifierStart c = true := inRanges_of_coveredBy unalphabeticStarts_covered hu
    have hm := inRanges_eq_false_of_apartFrom unalphabeticStarts_apart hu
    simp [isAlphabetic, hs, hu, hm]
  | false => cases hs : isIdentifierStart c <;> simp [isAlphabetic, hs, hu]

end Tables

/-- Whether the first character of a text may open an identifier without being alphabetic. -/
def opensUnalphabetic (text : String) : Bool :=
  match text.toList with
  | first :: _ => isIdentifierStart first && !isAlphabetic first
  | [] => false

theorem opensUnalphabetic_eq (text : String) :
    opensUnalphabetic text = text.toList.head?.any (inRanges unalphabeticStartRanges) := by
  unfold opensUnalphabetic
  split
  next first _ ht => simp [ht, start_and_not_alphabetic]
  next ht => simp [ht]

namespace Builders

/-- The class of the token that a builder declares a text with. -/
def declaredSymbol (text : String) : Symbol :=
  match text.toList with
  | first :: _ => if isAlphabetic first || first == '_' then .name else .operator
  | [] => .operator

theorem declaredName_eq (text : String) :
    declaredName text = Node.ofText (declaredSymbol text) text := by
  cases ht : text.toList with
  | nil => simp only [declaredName, declaredSymbol, ht]
  | cons first rest =>
    simp only [declaredName, declaredSymbol, ht]
    split <;> rfl

theorem declaredSymbol_eq_or (text : String) :
    declaredSymbol text = .name ∨ declaredSymbol text = .operator := by
  unfold declaredSymbol
  split
  · split <;> simp
  · simp

/-- An identifier is declared as a name unless it opens with an unalphabetic character. -/
theorem declaredSymbol_of_isIdentifier {text : String} (h : isIdentifier text.toList = true) :
    declaredSymbol text = if opensUnalphabetic text then .operator else .name := by
  cases ht : text.toList with
  | nil => simp [ht, isIdentifier] at h
  | cons first rest =>
    have ho : opensUnalphabetic text = (isIdentifierStart first && !isAlphabetic first) := by
      simp only [opensUnalphabetic, ht]
    have hd : declaredSymbol text =
        if isAlphabetic first || first == '_' then .name else .operator := by
      simp only [declaredSymbol, ht]
    have hu : isIdentifierStart '_' = false := by decide +kernel
    rw [ho, hd]
    simp only [ht, isIdentifier, Bool.and_eq_true, Bool.or_eq_true, beq_iff_eq] at h
    rcases h.1 with rfl | hs
    · simp [hu]
    · have hne : first ≠ '_' := by
        rintro rfl
        exact absurd hs (by simp [hu])
      cases ha : isAlphabetic first <;> simp [hs, hne]

/-- The class that an identifier is declared with accepts it. -/
theorem accepts_declaredSymbol {text : String} (h : isIdentifier text.toList = true) :
    (declaredSymbol text).accepts text = true := by
  have hne : text ≠ "" := by
    rintro rfl
    simp [isIdentifier] at h
  rcases declaredSymbol_eq_or text with hd | hd <;> rw [hd] <;> simp [Symbol.accepts, h, hne]

end Builders

end ProgramTree
