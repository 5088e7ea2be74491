import Mathlib.Data.List.Basic
import Mathlib.Data.Nat.Notation

/-!
# Decimal fields in text

The two ways C and C++ programs take numbers out of text: `%d` and `strtol`, which read a
signed decimal at the front and stop at the first other character, and a `std::getline` loop
that cuts at a separator. The lemmas say that both undo the printing of natural numbers that a
`long` holds.
-/

namespace PepDna.Scan

/-- `isspace` of the C locale. -/
def isSpace (c : Char) : Bool := c.toNat == 32 || (9 ≤ c.toNat && c.toNat ≤ 13)

/-- The digits at the front as a number, and the text after them; `none` without a digit. -/
def digits (s : List Char) : Option (ℕ × List Char) :=
  if s.takeWhile Char.isDigit = [] then none
  else some (Nat.ofDigitChars 10 (s.takeWhile Char.isDigit) 0, s.dropWhile Char.isDigit)

def LONG_MAX : Int := 9223372036854775807

def LONG_MIN : Int := -9223372036854775808

/-- A number too large for a 64-bit `long` is read as the bound on its side. -/
def toLong (n : Int) : Int :=
  if n > LONG_MAX then LONG_MAX else if n < LONG_MIN then LONG_MIN else n

/-- What base-10 `strtol` reads: blanks, an optional sign, digits. `%d` reads the same `long` and
keeps its low bits. -/
def int (s : List Char) : Option (Int × List Char) :=
  match s.dropWhile isSpace with
  | '-' :: t => (digits t).map fun r => (toLong (-(r.1 : Int)), r.2)
  | '+' :: t => (digits t).map fun r => (toLong (r.1 : Int), r.2)
  | t => (digits t).map fun r => (toLong (r.1 : Int), r.2)

/-- An ordinary character of a `scanf` format. -/
def lit (c : Char) : List Char → Option (List Char)
  | [] => none
  | d :: s => if d = c then some s else none

/-- `while (std::getline(iss, s, sep))`: the stream is at its end after the last character, so
text that ends in a separator has no empty field after it. -/
def getlines (sep : Char) (s : List Char) : List (List Char) :=
  if (s.splitOn sep).getLast? = some [] then (s.splitOn sep).dropLast else s.splitOn sep

/-- The text after a number does not go on with a digit. -/
def Stops (s : List Char) : Prop := ∀ c ∈ s.head?, c.isDigit = false

theorem stops_nil : Stops [] := by
  intro c hc
  cases hc

theorem stops_cons (c : Char) (s : List Char) (h : c.isDigit = false) : Stops (c :: s) := by
  intro d hd
  cases hd
  exact h

theorem isDigit_of_toDigits (n : ℕ) : ∀ c ∈ Nat.toDigits 10 n, c.isDigit = true := by
  intro c hc
  exact Nat.isDigit_of_mem_toDigits (by decide) (by decide) hc

theorem takeWhile_digits (ds s : List Char) (hd : ∀ c ∈ ds, c.isDigit = true) (h : Stops s) :
    (ds ++ s).takeWhile Char.isDigit = ds := by
  rw [List.takeWhile_append_of_pos hd]
  cases s with
  | nil => simp
  | cons c s => simp [h c rfl]

theorem dropWhile_digits (ds s : List Char) (hd : ∀ c ∈ ds, c.isDigit = true) (h : Stops s) :
    (ds ++ s).dropWhile Char.isDigit = s := by
  rw [List.dropWhile_append_of_pos hd]
  cases s with
  | nil => simp
  | cons c s => simp [h c rfl]

theorem digits_append (ds s : List Char) (hne : ds ≠ []) (hd : ∀ c ∈ ds, c.isDigit = true)
    (h : Stops s) : digits (ds ++ s) = some (Nat.ofDigitChars 10 ds 0, s) := by
  rw [digits, takeWhile_digits ds s hd h, dropWhile_digits ds s hd h, if_neg hne]

/-- A digit is neither a blank nor a sign. -/
theorem digit_plain (c : Char) (h : c.isDigit = true) :
    isSpace c = false ∧ c ≠ '-' ∧ c ≠ '+' := by
  have hc : 48 ≤ c.toNat ∧ c.toNat ≤ 57 := by
    simp only [Char.isDigit, Bool.and_eq_true, decide_eq_true_eq] at h
    exact ⟨h.1, h.2⟩
  refine ⟨?_, ?_, ?_⟩
  · simp only [isSpace, Bool.or_eq_false_iff, beq_eq_false_iff_ne, Bool.and_eq_false_imp,
      decide_eq_true_eq, decide_eq_false_iff_not]
    omega
  · rintro rfl
    exact absurd hc.1 (by decide)
  · rintro rfl
    exact absurd hc.1 (by decide)

theorem toLong_natCast (n : ℕ) (h : n < 9223372036854775808) : toLong n = n := by
  have hmax : ¬((n : Int) > LONG_MAX) := by
    rw [LONG_MAX]
    omega
  have hmin : ¬((n : Int) < LONG_MIN) := by
    rw [LONG_MIN]
    omega
  rw [toLong, if_neg hmax, if_neg hmin]

theorem int_append (ds s : List Char) (hne : ds ≠ []) (hd : ∀ c ∈ ds, c.isDigit = true)
    (h : Stops s) : int (ds ++ s) = some (toLong (Nat.ofDigitChars 10 ds 0), s) := by
  have hr := digits_append ds s hne hd h
  cases ds with
  | nil => exact absurd rfl hne
  | cons c ds =>
    have hc := digit_plain c (hd c List.mem_cons_self)
    have ht : (c :: (ds ++ s)).dropWhile isSpace = c :: (ds ++ s) := by
      rw [List.dropWhile_cons, hc.1]
      rfl
    rw [List.cons_append] at hr ⊢
    rw [int, ht]
    split
    · next t heq => exact absurd (List.cons.inj heq).1 hc.2.1
    · next t heq => exact absurd (List.cons.inj heq).1 hc.2.2
    · rw [hr]
      rfl

theorem int_toDigits (n : ℕ) (hn : n < 9223372036854775808) (s : List Char) (h : Stops s) :
    int (Nat.toDigits 10 n ++ s) = some ((n : Int), s) := by
  rw [int_append _ s Nat.toDigits_ne_nil (isDigit_of_toDigits n) h,
    Nat.ofDigitChars_toDigits (by decide) (by decide), toLong_natCast n hn]

@[simp] theorem lit_cons (c : Char) (s : List Char) : lit c (c :: s) = some s := if_pos rfl

/-- Fields that are not empty and hold no separator are what the loop reads back. -/
theorem getlines_intercalate (sep : Char) (fs : List (List Char)) (hfs : fs ≠ [])
    (hsep : ∀ f ∈ fs, sep ∉ f) (hne : [] ∉ fs) : getlines sep ([sep].intercalate fs) = fs := by
  have hsplit : ([sep].intercalate fs).splitOn sep = fs := List.splitOn_intercalate sep hsep hfs
  rw [getlines, hsplit]
  refine if_neg ?_
  intro hlast
  exact hne (List.mem_of_getLast? hlast)

end PepDna.Scan
