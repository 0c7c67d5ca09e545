import Mathlib

namespace MySkipList.Foundation

abbrev Byte := Fin 256

/-- A string is a list of bytes. Its order compares the bytes as unsigned numbers. -/
abbrev Str := List Byte

/-- The bytes of a literal. -/
def bytes (text : String) : Str := text.toList.map fun letter => Fin.ofNat 256 letter.toNat

/-- The conversion to `unsigned char` keeps the lowest eight bits. -/
def toByte (value : Nat) : Byte := Fin.ofNat 256 value

def newline : Byte := 10

def colon : Byte := 58

/-- The values of the type `int`. -/
abbrev CInt := { value : Int // -2 ^ 31 ≤ value ∧ value < 2 ^ 31 }

/-- The six white space bytes of the C locale. -/
def isSpace (byte : Byte) : Bool := byte = 32 || (9 ≤ byte && byte ≤ 13)

def isDigit (byte : Byte) : Bool := 48 ≤ byte && byte ≤ 57

/-- A C string ends before its first zero byte. -/
def cString (buffer : Str) : Str := buffer.takeWhile fun byte => byte ≠ 0

/-- The tokens that the extraction operator reads one after the other. -/
def tokens (text : Str) : List Str := (text.splitOnP isSpace).filter fun token => token ≠ []

/-- The lines that `getline` reads. An empty rest after the last line break is not a line. -/
def lines (text : Str) : List Str :=
  let pieces := text.splitOnP fun byte => byte = newline
  if pieces.getLast? = some [] then pieces.dropLast else pieces

/-- Written lines are read back. -/
theorem lines_flatMap (written : List Str) (unbroken : ∀ line ∈ written, newline ∉ line) :
    lines (written.flatMap fun line => line ++ [newline]) = written := by
  have pieces : (written.flatMap fun line => line ++ [newline]).splitOnP (fun byte => decide (byte = newline)) =
      written ++ [[]] := by
    induction written with
    | nil => rfl
    | cons line rest ih =>
        have plain : ∀ byte ∈ line, decide (byte = newline) = false := by
          intro byte member
          exact decide_eq_false fun same => unbroken line (by simp) (same ▸ member)
        rw [List.flatMap_cons, List.append_assoc, List.singleton_append,
          List.splitOnP_append_cons_of_forall_mem plain newline (by simp), ih fun other member =>
            unbroken other (List.mem_cons_of_mem line member), List.cons_append]
  rw [lines, pieces, List.getLast?_concat, if_pos rfl, List.dropLast_concat]

section Numbers

def digitsText (value : Nat) : Str :=
  if value = 0 then [48] else (Nat.digits 10 value).reverse.map fun digit => Fin.ofNat 256 (48 + digit)

/-- The text of an integer in `std::to_string` and in the output of a stream. -/
def decimal (value : Int) : Str := if value < 0 then 45 :: digitsText value.natAbs else digitsText value.natAbs

/-- An optional sign byte, and whether it is a minus. -/
def splitSign : Str → Bool × Str
  | [] => (false, [])
  | byte :: rest => if byte = 45 then (true, rest) else if byte = 43 then (false, rest) else (false, byte :: rest)

def leadingDigits (text : Str) : List Nat := (text.takeWhile isDigit).map fun byte => byte.val - 48

def toCInt (value : Int) : Option CInt :=
  if inside : -2 ^ 31 ≤ value ∧ value < 2 ^ 31 then some ⟨value, inside⟩ else none

/-- `std::stoi` skips white space, reads a sign and digits, and ignores the rest. It throws without
a digit or outside the range of `int`; the result `none` is the exception. -/
def stoi (text : Str) : Option CInt :=
  let (negative, body) := splitSign (text.dropWhile isSpace)
  let digits := leadingDigits body
  if digits = [] then none
  else
    let value : Int := (Nat.ofDigits 10 digits.reverse : Nat)
    toCInt (if negative then -value else value)

theorem toCInt_val (value : CInt) : toCInt value.val = some value := by
  rw [toCInt, dif_pos value.property]

/-- A decimal digit has a digit byte. -/
theorem digit_byte {digit : Nat} (small : digit < 10) :
    isDigit (Fin.ofNat 256 (48 + digit)) = true ∧ (Fin.ofNat 256 (48 + digit)).val - 48 = digit := by
  interval_cases digit <;> exact ⟨by decide, by decide⟩

theorem digitsText_isDigit (value : Nat) : ∀ byte ∈ digitsText value, isDigit byte = true := by
  intro byte member
  unfold digitsText at member
  split at member
  · rw [List.mem_singleton.mp member]
    decide
  · obtain ⟨digit, present, rfl⟩ := List.mem_map.mp member
    exact (digit_byte (Nat.digits_lt_base (by decide) (List.mem_reverse.mp present))).1

/-- The digits of a number read back as the number. -/
theorem leadingDigits_digitsText (value : Nat) :
    leadingDigits (digitsText value) ≠ [] ∧ Nat.ofDigits 10 (leadingDigits (digitsText value)).reverse = value := by
  have whole : (digitsText value).takeWhile isDigit = digitsText value :=
    List.takeWhile_eq_self_iff.mpr (digitsText_isDigit value)
  rw [leadingDigits, whole]
  unfold digitsText
  split
  · rename_i zero
    rw [zero]
    exact ⟨by decide, rfl⟩
  · rename_i positive
    have digits : ((Nat.digits 10 value).reverse.map fun digit => Fin.ofNat 256 (48 + digit)).map
        (fun byte : Byte => byte.val - 48) = (Nat.digits 10 value).reverse := by
      rw [List.map_map]
      conv_rhs => rw [← List.map_id (Nat.digits 10 value).reverse]
      apply List.map_congr_left
      intro digit member
      exact (digit_byte (Nat.digits_lt_base (by decide) (List.mem_reverse.mp member))).2
    rw [digits, List.reverse_reverse]
    refine ⟨?_, Nat.ofDigits_digits 10 value⟩
    simpa [Nat.digits_eq_nil_iff_eq_zero] using positive

theorem digitsText_injective : Function.Injective digitsText := by
  intro first second same
  rw [← (leadingDigits_digitsText first).2, same, (leadingDigits_digitsText second).2]

/-- A number text starts with a digit. -/
theorem digitsText_cons (value : Nat) : ∃ first rest, digitsText value = first :: rest ∧ isDigit first = true := by
  cases form : digitsText value with
  | nil =>
      have facts := (leadingDigits_digitsText value).1
      simp [form, leadingDigits] at facts
  | cons first rest => exact ⟨first, rest, rfl, digitsText_isDigit value first (by simp [form])⟩

theorem digit_not_space (byte : Byte) (digit : isDigit byte = true) :
    isSpace byte = false ∧ byte ≠ 45 ∧ byte ≠ 43 ∧ byte ≠ colon ∧ byte ≠ newline := by
  simp only [isDigit, Bool.and_eq_true, decide_eq_true_eq, Fin.le_def] at digit
  have low : (48 : Nat) ≤ byte.val := digit.1
  have high : byte.val ≤ 57 := digit.2
  simp only [isSpace, Bool.or_eq_false_iff, Bool.and_eq_false_iff, decide_eq_false_iff_not, Fin.le_def, Fin.ext_iff, ne_eq,
    colon, newline]
  refine ⟨⟨?_, Or.inr ?_⟩, ?_, ?_, ?_, ?_⟩ <;> intro same <;> simp at same <;> omega

/-- The sign of a number text is its minus sign. -/
theorem splitSign_decimal (value : Int) :
    splitSign ((decimal value).dropWhile isSpace) = (decide (value < 0), digitsText value.natAbs) := by
  unfold decimal
  split
  · rename_i negative
    simp [negative, isSpace, splitSign]
  · rename_i positive
    obtain ⟨first, rest, form, digit⟩ := digitsText_cons value.natAbs
    obtain ⟨noSpace, noMinus, noPlus, _⟩ := digit_not_space first digit
    simp [form, noSpace, splitSign, noMinus, noPlus, positive]

/-- A printed integer reads back as itself. -/
theorem stoi_decimal (value : CInt) : stoi (decimal value.val) = some value := by
  obtain ⟨nonempty, number⟩ := leadingDigits_digitsText value.val.natAbs
  rw [stoi, splitSign_decimal]
  dsimp only
  rw [if_neg nonempty, number]
  have signed : (if decide (value.val < 0) then -(value.val.natAbs : Int) else (value.val.natAbs : Int)) =
      value.val := by
    by_cases negative : value.val < 0
    · rw [decide_eq_true negative, if_pos rfl]
      omega
    · rw [decide_eq_false negative, if_neg Bool.false_ne_true]
      omega
  rw [signed, toCInt_val]

theorem decimal_bytes (value : Int) : ∀ byte ∈ decimal value, byte ≠ colon ∧ byte ≠ newline := by
  intro byte member
  unfold decimal at member
  have digits : byte ∈ digitsText value.natAbs → byte ≠ colon ∧ byte ≠ newline := fun present =>
    (digit_not_space byte (digitsText_isDigit _ byte present)).2.2.2
  split at member
  · rcases List.mem_cons.mp member with rfl | present
    · decide
    · exact digits present
  · exact digits member

/-- A number text starts with a digit or a minus sign. -/
theorem decimal_head (value : Int) :
    ∃ first rest, decimal value = first :: rest ∧ (isDigit first = true ∨ bytes "-" = [first]) := by
  obtain ⟨first, rest, form, digit⟩ := digitsText_cons value.natAbs
  unfold decimal
  split
  · exact ⟨45, _, rfl, Or.inr (by decide)⟩
  · exact ⟨first, rest, form, Or.inl digit⟩

/-- The text of a value of the type `int` is short. -/
theorem decimal_length (value : CInt) : (decimal value.val).length ≤ 11 := by
  have digits : (digitsText value.val.natAbs).length ≤ 10 := by
    unfold digitsText
    split
    · simp
    · rw [List.length_map, List.length_reverse, Nat.digits_length_le_iff (by decide)]
      have bounds := value.property
      omega
  unfold decimal
  split
  · rw [List.length_cons]
    omega
  · omega

theorem decimal_nonempty (value : Int) : decimal value ≠ [] := by
  obtain ⟨first, rest, form, _⟩ := digitsText_cons value.natAbs
  unfold decimal
  split <;> simp [form]

end Numbers

end MySkipList.Foundation
