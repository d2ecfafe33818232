import Mathlib.Algebra.Order.Ring.Nat
import Mathlib.Data.List.TakeWhile

/-!
# Numbers as text

What `%ld` prints and `%d` reads, for numbers that are not negative: `printed` is the decimal text
of a number, `scanned` the number at the front of a text, up to the first byte that is no digit.
`scanned_printed` is the round trip, whatever text stands behind the number.
-/

namespace ElasticFramework

/-- The byte of a character of the basic set. -/
def byteOfChar (c : Char) : UInt8 := UInt8.ofNat c.toNat

def charOfByte (b : UInt8) : Char := Char.ofNat b.toNat

/-- The decimal text of a number. -/
def printed (n : ℕ) : List UInt8 := (Nat.toDigits 10 n).map byteOfChar

/-- The number at the front of a text. -/
def scanned (text : List UInt8) : Option ℕ :=
  let digits := (text.map charOfByte).takeWhile Char.isDigit
  if digits = [] then none else some (Nat.ofDigitChars 10 digits 0)

/-- The text goes on with something else than a digit. -/
def EndsNumber (text : List UInt8) : Prop := ∀ b ∈ text.head?, (charOfByte b).isDigit = false

lemma charOfByte_byteOfChar {c : Char} (h : c.isDigit = true) : charOfByte (byteOfChar c) = c := by
  have hle : c.toNat ≤ 57 := by
    simp only [Char.isDigit, Bool.and_eq_true, decide_eq_true_eq] at h
    exact h.2
  rw [charOfByte, byteOfChar, UInt8.toNat_ofNat', Nat.mod_eq_of_lt (by omega), Char.ofNat_toNat]

lemma map_charOfByte_printed (n : ℕ) : (printed n).map charOfByte = Nat.toDigits 10 n := by
  rw [printed, List.map_map]
  refine (List.map_congr_left fun c hc => ?_).trans (List.map_id _)
  exact charOfByte_byteOfChar (Nat.isDigit_of_mem_toDigits (by decide) (by decide) hc)

/-- A number is read back, whatever text follows it. -/
theorem scanned_printed (n : ℕ) {text : List UInt8} (h : EndsNumber text) :
    scanned (printed n ++ text) = some n := by
  have hdigits : ((printed n ++ text).map charOfByte).takeWhile Char.isDigit =
      Nat.toDigits 10 n := by
    have hall : ∀ c ∈ Nat.toDigits 10 n, c.isDigit = true := fun c hc =>
      Nat.isDigit_of_mem_toDigits (by decide) (by decide) hc
    have hrest : (text.map charOfByte).takeWhile Char.isDigit = [] := by
      cases text with
      | nil => rfl
      | cons b text =>
          have hb := h b rfl
          rw [List.map_cons, List.takeWhile_cons_of_neg (by rw [hb]; exact Bool.false_ne_true)]
    rw [List.map_append, map_charOfByte_printed, List.takeWhile_append_of_pos hall, hrest,
      List.append_nil]
  unfold scanned
  simp only [hdigits]
  rw [if_neg Nat.toDigits_ne_nil, Nat.ofDigitChars_ten_toDigits]

/-- A number of up to `k` digits takes up to `k` bytes. -/
lemma length_printed_le {n k : ℕ} (hk : 0 < k) : (printed n).length ≤ k ↔ n < 10 ^ k := by
  rw [printed, List.length_map]
  exact Nat.length_toDigits_le_iff (by decide) hk

example : scanned (printed 2147483647 ++ [0]) = some 2147483647 := by decide

end ElasticFramework
