import Mathlib.Data.List.TakeWhile
import ProgramTree.Construction

namespace ProgramTree

structure Digits (text : List Char) : Prop where
  ne_nil : text ≠ []
  all : ∀ c ∈ text, c.isDigit = true

inductive Sign : List Char → Prop
  | none : Sign []
  | plus : Sign ['+']
  | minus : Sign ['-']

inductive Exponent : List Char → Prop
  | none : Exponent []
  | marked {mark : Char} {sign digits : List Char} (hm : mark = 'e' ∨ mark = 'E')
      (hs : Sign sign) (hd : Digits digits) : Exponent (mark :: (sign ++ digits))

inductive Fraction : List Char → Prop
  | none : Fraction []
  | point {digits : List Char} (hd : ∀ c ∈ digits, c.isDigit = true) : Fraction ('.' :: digits)

/-- The texts of number tokens: digits, perhaps a point with any digits after it, and perhaps an
exponent. -/
inductive Numeral : List Char → Prop
  | mk {whole fraction exponent : List Char} (hw : Digits whole) (hf : Fraction fraction)
      (he : Exponent exponent) : Numeral (whole ++ (fraction ++ exponent))

/-- The texts of floating-point numbers without a sign: a point needs a digit on one side. -/
inductive Unsigned : List Char → Prop
  | whole {whole exponent : List Char} (hw : Digits whole) (he : Exponent exponent) :
      Unsigned (whole ++ exponent)
  | pointed {whole fraction exponent : List Char} (hw : ∀ c ∈ whole, c.isDigit = true)
      (hf : ∀ c ∈ fraction, c.isDigit = true) (hd : whole ≠ [] ∨ fraction ≠ [])
      (he : Exponent exponent) : Unsigned (whole ++ '.' :: (fraction ++ exponent))

/-- What is read as floating point: besides numbers an infinity, or what is no number. -/
inductive FloatText : List Char → Prop
  | number {sign text : List Char} (hs : Sign sign) (hu : Unsigned text) : FloatText (sign ++ text)
  | word {sign text : List Char} {word : String} (hs : Sign sign) (hw : word ∈ floatWords)
      (ht : text.map Char.toLower = word.toList) : FloatText (sign ++ text)

section Parts

variable {text digits rest : List Char}

theorem takeWhile_digits_append (hd : ∀ c ∈ digits, c.isDigit = true)
    (hr : ∀ c ∈ rest.head?, c.isDigit = false) :
    (digits ++ rest).takeWhile Char.isDigit = digits ∧
      (digits ++ rest).dropWhile Char.isDigit = rest := by
  rw [List.takeWhile_append_of_pos hd, List.dropWhile_append_of_pos hd]
  cases rest with
  | nil => simp
  | cons c rest =>
    have hc : c.isDigit = false := hr c rfl
    simp [hc]

theorem any_head?_isDigit_iff (text : List Char) :
    text.head?.any Char.isDigit = true ↔ text.takeWhile Char.isDigit ≠ [] := by
  cases text with
  | nil => simp
  | cons c rest => cases hc : c.isDigit <;> simp [hc]

theorem dropSign_append {sign : List Char} (hs : Sign sign)
    (hh : ∀ c ∈ text.head?, c ≠ '+' ∧ c ≠ '-') : dropSign (sign ++ text) = text := by
  cases hs with
  | none =>
    cases text with
    | nil => rfl
    | cons c rest =>
      obtain ⟨hp, hm⟩ := hh c rfl
      rw [List.nil_append, dropSign]
      · rintro _ ⟨⟩
        exact hp rfl
      · rintro _ ⟨⟩
        exact hm rfl
  | plus => rfl
  | minus => rfl

theorem exists_sign (text : List Char) : ∃ sign, Sign sign ∧ text = sign ++ dropSign text := by
  unfold dropSign
  split
  next => exact ⟨_, .plus, rfl⟩
  next => exact ⟨_, .minus, rfl⟩
  next => exact ⟨_, .none, rfl⟩

theorem isDigit_ne_sign {c : Char} (h : c.isDigit = true) : c ≠ '+' ∧ c ≠ '-' := by
  constructor <;> rintro rfl <;> cases h

theorem Digits.head?_ne_sign (h : Digits text) : ∀ c ∈ text.head?, c ≠ '+' ∧ c ≠ '-' :=
  fun c hc => isDigit_ne_sign (h.all c (List.mem_of_mem_head? hc))

theorem isExponentPart_iff (text : List Char) : isExponentPart text = true ↔ Exponent text := by
  constructor
  · intro h
    unfold isExponentPart at h
    split at h
    next => exact .none
    next mark rest =>
      simp only [Bool.and_eq_true, Bool.or_eq_true, beq_iff_eq, Bool.not_eq_true',
        List.isEmpty_eq_false_iff, List.all_eq_true] at h
      obtain ⟨⟨hm, hne⟩, hall⟩ := h
      obtain ⟨sign, hs, hrest⟩ := exists_sign rest
      rw [hrest]
      exact .marked hm hs ⟨hne, hall⟩
  · rintro (_ | ⟨hm, hs, hd⟩)
    · rfl
    · simpa [isExponentPart, dropSign_append hs hd.head?_ne_sign, hm, hd.ne_nil] using hd.all

theorem Exponent.head?_eq (h : Exponent text) : ∀ c ∈ text.head?, c = 'e' ∨ c = 'E' := by
  cases h with
  | none => simp
  | marked hm => simpa using hm

theorem Exponent.head?_not_digit (h : Exponent text) :
    ∀ c ∈ text.head?, c.isDigit = false := by
  intro c hc
  rcases h.head?_eq c hc with rfl | rfl <;> rfl

theorem isUnsigned_iff (text : List Char) : isUnsigned text = true ↔ Unsigned text := by
  constructor
  · intro h
    have hsplit := (List.takeWhile_append_dropWhile (p := Char.isDigit) (l := text)).symm
    have hwhole : ∀ c ∈ text.takeWhile Char.isDigit, c.isDigit = true :=
      fun c hc => List.mem_takeWhile_imp hc
    unfold isUnsigned at h
    rw [hsplit]
    split at h
    next rest hrest =>
      simp only [Bool.and_eq_true, Bool.or_eq_true, Bool.not_eq_true', List.isEmpty_eq_false_iff,
        any_head?_isDigit_iff, isExponentPart_iff] at h
      obtain ⟨hd, he⟩ := h
      rw [hrest, ← List.takeWhile_append_dropWhile (p := Char.isDigit) (l := rest)]
      exact .pointed hwhole (fun c hc => List.mem_takeWhile_imp hc) hd he
    next =>
      simp only [Bool.and_eq_true, Bool.not_eq_true', List.isEmpty_eq_false_iff,
        isExponentPart_iff] at h
      exact .whole ⟨h.1, hwhole⟩ h.2
  · intro h
    unfold isUnsigned
    cases h with
    | whole hw he =>
      obtain ⟨htake, hdrop⟩ := takeWhile_digits_append hw.all he.head?_not_digit
      rw [htake, hdrop]
      split
      next rest =>
        have hmark := he.head?_eq '.' rfl
        simp at hmark
      next => simp [hw.ne_nil, (isExponentPart_iff _).mpr he]
    | @pointed whole fraction exponent hw hf hd he =>
      have hpoint : ∀ c ∈ ('.' :: (fraction ++ exponent)).head?, c.isDigit = false := by simp
      obtain ⟨htake, hdrop⟩ := takeWhile_digits_append hw hpoint
      obtain ⟨hfirst, hrest⟩ := takeWhile_digits_append hf he.head?_not_digit
      simpa only [htake, hdrop, hrest, hfirst, (isExponentPart_iff _).mpr he, Bool.and_true,
        Bool.or_eq_true, Bool.not_eq_true', List.isEmpty_eq_false_iff, any_head?_isDigit_iff]
        using hd

theorem Unsigned.head?_ne_sign (h : Unsigned text) : ∀ c ∈ text.head?, c ≠ '+' ∧ c ≠ '-' := by
  cases h with
  | @whole whole exponent hw =>
    cases whole with
    | nil => exact (hw.ne_nil rfl).elim
    | cons c whole => exact hw.head?_ne_sign
  | @pointed whole fraction exponent hw =>
    cases whole with
    | nil => simp
    | cons c whole => simpa using isDigit_ne_sign (hw c List.mem_cons_self)

theorem toLower_of_isDigit {c : Char} (h : c.isDigit = true) : c.toLower = c := by
  have hnine : c.val ≤ '9'.val := by simpa using (Bool.and_eq_true_iff.mp h).2
  exact dif_neg fun hupper => absurd (UInt32.le_trans hupper.1 hnine) (by decide)

/-- The words of floating point open with a letter. -/
theorem head?_of_mem_floatWords {word : String} (hw : word ∈ floatWords)
    (ht : text.map Char.toLower = word.toList) :
    ∀ c ∈ text.head?, c.isDigit = false ∧ c ≠ '+' ∧ c ≠ '-' := by
  intro c hc
  have hlower : some c.toLower = word.toList.head? := by
    rw [← ht, List.head?_map, Option.mem_def.mp hc, Option.map_some]
  have hletter : c.toLower = 'i' ∨ c.toLower = 'n' := by
    simp only [floatWords, List.mem_cons, List.not_mem_nil, or_false] at hw
    rcases hw with rfl | rfl | rfl
    · exact .inl (Option.some.inj hlower)
    · exact .inl (Option.some.inj hlower)
    · exact .inr (Option.some.inj hlower)
  refine ⟨Bool.eq_false_iff.mpr fun hd => ?_, ?_, ?_⟩
  · rw [toLower_of_isDigit hd] at hletter
    rcases hletter with rfl | rfl <;> cases hd
  · rintro rfl
    exact absurd hletter (by decide)
  · rintro rfl
    exact absurd hletter (by decide)

theorem isFloat_iff (text : List Char) : isFloat text = true ↔ FloatText text := by
  simp only [isFloat, Bool.or_eq_true, isUnsigned_iff, List.any_eq_true, beq_iff_eq]
  constructor
  · obtain ⟨sign, hs, htext⟩ := exists_sign text
    rintro (hu | ⟨word, hw, ht⟩)
    · exact htext ▸ .number hs hu
    · exact htext ▸ .word hs hw ht.symm
  · rintro (⟨hs, hu⟩ | ⟨hs, hw, ht⟩)
    · exact .inl (by rwa [dropSign_append hs hu.head?_ne_sign])
    · have hhead := fun c hc => (head?_of_mem_floatWords hw ht c hc).2
      exact .inr ⟨_, hw, by rw [dropSign_append hs hhead, ht]⟩

/-- Of the texts of floating point, those that open with a digit are the numerals. -/
theorem numeral_iff (text : List Char) :
    Numeral text ↔ text.head?.any Char.isDigit = true ∧ FloatText text := by
  constructor
  · intro h
    cases h with
    | @mk whole fraction exponent hw hf he =>
      refine ⟨?_, @FloatText.number [] _ .none ?_⟩
      · cases whole with
        | nil => exact (hw.ne_nil rfl).elim
        | cons c whole => exact hw.all c List.mem_cons_self
      · cases hf with
        | none => exact .whole hw he
        | point hd => exact .pointed hw.all hd (.inl hw.ne_nil) he
  · rintro ⟨hfirst, h⟩
    -- Neither a sign nor a word opens with a digit, so what is left has no sign and digits in front.
    cases h with
    | number hs hu =>
      cases hs with
      | none =>
        rw [List.nil_append] at hfirst ⊢
        cases hu with
        | whole hw he => exact @Numeral.mk _ [] _ hw .none he
        | @pointed whole fraction exponent hw hf hd he =>
          have hne : whole ≠ [] := by
            intro hnil
            rw [hnil] at hfirst
            cases hfirst
          exact .mk ⟨hne, hw⟩ (.point hf) he
      | plus => cases hfirst
      | minus => cases hfirst
    | word hs hw ht =>
      obtain ⟨c, hc, hd⟩ := (Option.any_eq_true ..).mp hfirst
      cases hs with
      | none => simp [(head?_of_mem_floatWords hw ht c hc).1] at hd
      | plus => cases hfirst
      | minus => cases hfirst

theorem isDecimal_iff (text : List Char) : isDecimal text = true ↔ Numeral text := by
  rw [isDecimal, Bool.and_eq_true, isFloat_iff, numeral_iff]

theorem Sign.chars (h : Sign text) : ∀ c ∈ text, c = '+' ∨ c = '-' := by
  cases h <;> simp

theorem Exponent.chars (h : Exponent text) :
    ∀ c ∈ text, c.isDigit = true ∨ c ∈ ['.', 'e', 'E', '+', '-'] := by
  rcases h with _ | ⟨hm, hs, hd⟩
  · simp
  · intro c hc
    rcases List.mem_cons.mp hc with rfl | hc
    · rcases hm with rfl | rfl <;> simp
    · rcases List.mem_append.mp hc with hc | hc
      · rcases hs.chars c hc with rfl | rfl <;> simp
      · exact .inl (hd.all c hc)

theorem Numeral.chars (h : Numeral text) :
    ∀ c ∈ text, c.isDigit = true ∨ c ∈ ['.', 'e', 'E', '+', '-'] := by
  obtain ⟨hw, hf, he⟩ := h
  intro c hc
  rcases List.mem_append.mp hc with hc | hc
  · exact .inl (hw.all c hc)
  · rcases List.mem_append.mp hc with hc | hc
    · cases hf with
      | none => cases hc
      | point hd =>
        rcases List.mem_cons.mp hc with rfl | hc
        · simp
        · exact .inl (hd c hc)
    · exact he.chars c hc

end Parts

namespace Node

/-- A number token can be made of the numerals and of nothing else. These are the texts that open
with a digit and are read as floating point; besides digits they have points, marks of exponents
and signs only. -/
theorem ofText_number (text : String) (next : Nat) :
    (ofText .number text next = .ok (.token next .number text) (next + 1) ↔
      Numeral text.toList) ∧
    (ofText .number text next = .error (.invalidToken .number text) next ↔
      ¬ Numeral text.toList) ∧
    (Numeral text.toList ↔
      text.toList.head?.any Char.isDigit = true ∧ FloatText text.toList) ∧
    (Numeral text.toList →
      ∀ c ∈ text.toList, c.isDigit = true ∨ c ∈ ['.', 'e', 'E', '+', '-']) := by
  have haccepts : Symbol.number.accepts text = true ↔ Numeral text.toList :=
    isDecimal_iff text.toList
  rw [ofText_eq_ok_iff, ofText_eq_error_iff, ← Bool.not_eq_true, haccepts]
  exact ⟨Iff.rfl, Iff.rfl, numeral_iff text.toList, Numeral.chars⟩

/-- A point needs no digit after it, and an exponent may have a sign and zeros in front. -/
theorem ofText_number_pointed :
    Numeral "1.e-07".toList ∧ ofText .number "1.e-07" 4 = .ok (.token 4 .number "1.e-07") 5 ∧
      ∀ c ∈ "1.e-07".toList, c.isDigit = true ∨ c ∈ ['.', 'e', 'E', '+', '-'] := by
  have hnumeral : Numeral "1.e-07".toList := (isDecimal_iff _).mp (by decide)
  have h := ofText_number "1.e-07" 4
  exact ⟨hnumeral, h.1.mpr hnumeral, h.2.2.2 hnumeral⟩

end Node

end ProgramTree
